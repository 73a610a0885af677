import FieldRules.Data.Value
import FieldRules.Json.Decode
import FieldRules.Rule.Call

/-!
# Rule calls in JSON

Parameters are JSON numbers and strings; a number is read as a double and written as one.
-/

namespace FieldRules

open Json
open Data (Node Value)

namespace RuleParam

def toValue : RuleParam → Value
  | number x => .number (.real x)
  | text s => .string s

def ofNode? : Node → Option RuleParam
  | .number n => some (number n.toBinary64)
  | .string s => some (text s)
  | _ => none

def readJson (scope : Scope) (d : Document) : Read RuleParam := do
  match ofNode? (← d.readNode scope) with
  | some p => .ok p
  | none => mismatch (.noVariant "RuleParam")

def readJsonList (scope : Scope) : Document → Read (List RuleParam) := Document.readList scope readJson

end RuleParam

namespace RuleCall

def shape : Shape RuleCall where
  title := "struct ParsedRuleCall"
  start := ⟨"", []⟩
  slots :=
    [⟨["rule_name"], true, fun _ d c => return { c with name := ← d.readText }⟩,
     ⟨["raw_parameters"], false, fun scope d c => return { c with params := ← RuleParam.readJsonList scope d }⟩]

def readJson : Scope → Document → Read RuleCall := shape.read

def toValue (c : RuleCall) : Value :=
  .map [("rule_name", .string c.name), ("raw_parameters", .list (c.params.map RuleParam.toValue))]

end RuleCall

end FieldRules
