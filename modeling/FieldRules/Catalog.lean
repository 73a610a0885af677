import FieldRules.Data.Value
import FieldRules.Output.Table
import FieldRules.Registry

/-!
# The catalogue of rules

Rules as they are listed: name, number of parameters, and message.
-/

namespace FieldRules

open Data (Value)

def RuleDefinition.toValue (d : RuleDefinition) : Value :=
  .map [("name", .string d.name), ("parameter_count", .number (.natural d.parameterCount)),
    ("message", .string d.template)]

def RuleDefinition.tableRow (d : RuleDefinition) : List String := [d.name, Nat.repr d.parameterCount, d.template]

namespace Registry

/-- The definition of a name, or all of them in order when there is no name. -/
def select (r : Registry) : Option String → Except Fault (List RuleDefinition)
  | none => .ok r.definitions
  | some name => return [← r.lookup name]

end Registry

def Table.ofDefinitions (ds : List RuleDefinition) : Table :=
  ⟨["Rule", "Parameters", "Message"], ds.map RuleDefinition.tableRow⟩

end FieldRules
