import FieldRules.NameMap
import FieldRules.Rule.BuiltIn

/-!
# Rule registries

A registry maps names to rules, each of which stands under its own name, and lists them in the order of their names.
Registering a rule replaces the one of the same name; the message of a rule can be changed on its own.
-/

namespace FieldRules

structure Registry where
  rules : NameMap RuleDefinition
  named : ∀ e ∈ rules.entries, e.2.name = e.1

namespace Registry

def empty : Registry := ⟨.empty, by simp [NameMap.empty]⟩

def find? (r : Registry) (name : String) : Option RuleDefinition := r.rules.find? name

theorem name_eq_of_find? {r : Registry} {name : String} {d : RuleDefinition} (h : r.find? name = some d) :
    d.name = name :=
  r.named (name, d) (NameMap.mem_entries_of_find? h)

/-- Puts a rule under its name. -/
def put (r : Registry) (name : String) (d : RuleDefinition) (h : d.name = name) : Registry where
  rules := r.rules.insert name d
  named := by
    intro e he
    rcases NameMap.mem_place he with rfl | he
    · exact h
    · exact r.named e he

/-- Adds a definition; the one that it replaces is returned too. -/
def register (r : Registry) (d : RuleDefinition) : Option RuleDefinition × Registry :=
  (r.find? d.name, r.put d.name d rfl)

/-- The registry of the built-in rules. -/
def standard : Registry := BuiltIn.definitions.foldl (fun r d => (r.register d).2) empty

def lookup (r : Registry) (name : String) : Except Fault RuleDefinition :=
  match r.find? name with
  | some d => .ok d
  | none => .error (.unknownRule name)

/-- Gives a rule another message. -/
def setMessage (r : Registry) (name template : String) : Except Fault Registry :=
  match h : r.find? name with
  | some d => .ok (r.put name (d.withTemplate template) ((d.name_withTemplate template).trans (name_eq_of_find? h)))
  | none => .error (.unknownRule name)

def contains (r : Registry) (name : String) : Bool := r.rules.contains name

def names (r : Registry) : List String := r.rules.names

/-- The rules in the order of their own names. -/
def definitions (r : Registry) : List RuleDefinition :=
  (r.rules.entries.map Prod.snd).mergeSort fun a b => a.name ≤ b.name

def size (r : Registry) : Nat := r.rules.size

end Registry

end FieldRules
