import FieldRules.Data.Node
import FieldRules.Field

/-!
# Record entries

What may stand for a field in a record: a truth value is a checkbox, a number or a text is a text field, nothing
is a text field without a value, and a map or a list describes the field by its kind, value and checked state.
-/

namespace FieldRules.Entry

open Data (Node)

/-- A kind by its name, or by a map from the name or number of a kind to nothing. -/
def kind? : Node → Option FieldKind
  | .string name => some (.ofName name)
  | .map [(.string name, .null)] => some (.ofName name)
  | .map [(.number (.natural index), .null)] => some (.ofIndex index)
  | _ => none

def value? : Node → Option (Option String)
  | .null => some none
  | .string s => some (some s)
  | .number n => some (some n.text)
  | _ => none

def checked? : Node → Option (Option Bool)
  | .null => some none
  | .bool b => some (some b)
  | _ => none

/-- The parts of a description. -/
inductive Part where
  | kind
  | value
  | checked
  deriving DecidableEq

/-- The part that a key names: by name, or by number in the order of the parts. The outer option is about keys
that cannot name a part at all. -/
def part? : Node → Option (Option Part)
  | .string name =>
    some (if name = "kind" then some .kind else if name = "value" then some .value
      else if name = "checked" then some .checked else none)
  | .number (.natural index) =>
    some (match index with
      | 0 => some .kind
      | 1 => some .value
      | 2 => some .checked
      | _ => none)
  | _ => none

def take? (field : Field) (part : Part) (node : Node) : Option Field :=
  match part with
  | .kind => (kind? node).map fun kind => { field with kind }
  | .value => (value? node).map fun value => { field with value }
  | .checked => (checked? node).map fun checked => { field with checked }

/-- A description by a map: each part at most once, other keys are passed over. -/
def ofEntries? (field : Field) (taken : List Part) : List (Node × Node) → Option Field
  | [] => some field
  | (key, node) :: rest => do
    match ← part? key with
    | none => ofEntries? field taken rest
    | some part =>
      if taken.contains part then none
      else ofEntries? (← take? field part node) (part :: taken) rest

/-- A description by a list of the parts in order, any of which may be left out at the end. -/
def ofItems? (field : Field) : List Part → List Node → Option Field
  | _, [] => some field
  | [], _ :: _ => none
  | part :: parts, node :: rest => do
    ofItems? (← take? field part node) parts rest

/-- The field of a name that an entry stands for. -/
def field? (name : String) : Node → Option Field
  | .bool b => some (.checkbox name b)
  | .number n => some (.text name n.text)
  | .string s => some (.text name s)
  | .map entries => ofEntries? { name } [] entries
  | .list items => ofItems? { name } [.kind, .value, .checked] items
  | .null => some { name }

end FieldRules.Entry
