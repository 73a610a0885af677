/-!
# Fields of a record

A field has a name, a kind, and either or both of a value and a checked state.
-/

namespace FieldRules

inductive FieldKind where
  | text
  | checkbox
  | radio
  | file
  | other
  deriving DecidableEq

namespace FieldKind

def name : FieldKind → String
  | text => "text"
  | checkbox => "checkbox"
  | radio => "radio"
  | file => "file"
  | other => "other"

/-- The kind of a name; names that are not known stand for `other`. -/
def ofName (name : String) : FieldKind :=
  if name = "text" then text
  else if name = "checkbox" then checkbox
  else if name = "radio" then radio
  else if name = "file" then file
  else other

/-- The kinds in order, for documents that give a kind by its number. -/
def ofIndex : Nat → FieldKind
  | 0 => text
  | 1 => checkbox
  | 2 => radio
  | 3 => file
  | _ => other

/-- Whether a field of this kind is filled in by checking it. -/
def isCheckable : FieldKind → Bool
  | checkbox | radio => true
  | _ => false

theorem ofName_name (kind : FieldKind) : ofName kind.name = kind := by
  cases kind <;> rfl

end FieldKind

structure Field where
  name : String
  kind : FieldKind := .text
  value : Option String := none
  checked : Option Bool := none
  deriving DecidableEq

namespace Field

def text (name value : String) : Field := { name, value := some value }

def checkbox (name : String) (checked : Bool) : Field := { name, kind := .checkbox, checked := some checked }

/-- The value as rules see it: a missing one is empty. -/
def valueOrEmpty (f : Field) : String := f.value.getD ""

def isChecked (f : Field) : Bool := f.checked == some true

end Field

/-- The rules to apply to one field: rule expressions in order, divided by bars. -/
structure FieldSpec where
  field : String
  rules : String
  deriving DecidableEq

end FieldRules
