import FieldRules.Record
import FieldRules.Record.Entry
import FieldRules.Yaml.Decode

/-!
# Records in YAML

Records and field specifications read from YAML. A specification must be a map; the entry of a record is anything
that an entry may be.
-/

namespace FieldRules

open Yaml (Tree Slot readStructure?)

namespace FieldSpec

def yamlSlots : List (Slot FieldSpec) :=
  [⟨["field", "name"], true, fun t s => return { s with field := ← t.text? }⟩,
   ⟨["rules", "validations"], true, fun t s => return { s with rules := ← t.text? }⟩]

def ofYaml? (t : Tree) : Option FieldSpec := readStructure? yamlSlots ⟨"", ""⟩ t

def listOfYaml? (t : Tree) : Option (List FieldSpec) := do (← t.items?).mapM ofYaml?

end FieldSpec

namespace Record

/-- Inserts the entries of a map one by one. -/
def insertYaml? (record : Record) : List (Tree × Tree) → Option Record
  | [] => some record
  | (key, t) :: rest => do
    let field ← Entry.field? (← key.text?) (← t.node?)
    insertYaml? (record.insert field) rest

def ofYaml? (t : Tree) : Option Record := do insertYaml? empty (← t.entries?)

end Record

end FieldRules
