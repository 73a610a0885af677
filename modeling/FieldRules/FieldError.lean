import FieldRules.Record.Json
import FieldRules.Rule.Json

/-!
# Field errors

What is reported of a field that fails a rule: the specification it was checked under, the rule as written there,
its parameters, and the message.
-/

namespace FieldRules

open Json
open Data (Value)

structure FieldError where
  field : String
  spec : FieldSpec
  expression : String
  params : List RuleParam
  message : String
  deriving DecidableEq

namespace FieldError

def display (e : FieldError) : String := e.field ++ ": " ++ e.message

def shape : Shape FieldError where
  title := "struct FieldError"
  start := ⟨"", ⟨"", ""⟩, "", [], ""⟩
  slots :=
    [⟨["field_name"], true, fun _ d e => return { e with field := ← d.readText }⟩,
     ⟨["field_spec"], true, fun scope d e => return { e with spec := ← FieldSpec.readJson scope d }⟩,
     ⟨["rule_expression"], true, fun _ d e => return { e with expression := ← d.readText }⟩,
     ⟨["parameters"], true, fun scope d e => return { e with params := ← RuleParam.readJsonList scope d }⟩,
     ⟨["message"], true, fun _ d e => return { e with message := ← d.readText }⟩]

def readJson : Scope → Document → Read FieldError := shape.read

def toValue (e : FieldError) : Value :=
  .map [("field_name", .string e.field), ("field_spec", e.spec.toValue),
    ("rule_expression", .string e.expression), ("parameters", .list (e.params.map RuleParam.toValue)),
    ("message", .string e.message)]

end FieldError

end FieldRules
