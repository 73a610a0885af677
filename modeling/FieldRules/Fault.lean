import FieldRules.Json.Decode
import FieldRules.Rule.Call

/-!
# Faults

What ends a validation run, as opposed to a field that fails a rule. Most faults come from the rules or the field
specifications; reading JSON and evaluators of the caller's own can fail too.
-/

namespace FieldRules

inductive Fault where
  | configuration (text : String)
  | malformed (expression : String) (field : Option String) (reason : ParseFault)
  | unknownRule (name : String)
  | arity (field rule expression : String) (expected actual : Nat)
  | invalidCall (rule text : String)
  | invalidParameter (rule : String) (index : Nat) (expected found : String)
  | json (fault : Json.ReadFault)
  /-- An evaluator of the caller's own gave up; the causes are listed from the outermost in. -/
  | evaluation (causes : List String)
  deriving DecidableEq

namespace Fault

def message : Fault → String
  | configuration text => "Configuration error: " ++ text
  | malformed expression field reason =>
    let place := match field with
      | some f => ", submitted in field \"" ++ f ++ "\""
      | none => ""
    "Couldn't parse validation \"" ++ expression ++ "\"" ++ place ++ ": " ++ reason.message
  | unknownRule name => "The validation \"" ++ name ++ "\" does not exist in the validations provided"
  | arity field rule expression expected actual =>
    "Rule \"" ++ rule ++ "\" expects " ++ Nat.repr expected ++ " extra parameters. In field \"" ++ field ++
      "\", you are trying to call \"" ++ expression ++ "\" with " ++ Nat.repr actual ++ " parameters."
  | invalidCall rule text => "Invalid call to \"" ++ rule ++ "\": " ++ text
  | invalidParameter rule index expected found =>
    "Parameter " ++ Nat.repr index ++ " of \"" ++ rule ++ "\" must be " ++ expected ++ ", found " ++ found
  | json fault => "JSON error: " ++ fault.message
  | evaluation causes => "Rule evaluation failed: " ++ ": ".intercalate causes

/-- Names the field that a malformed expression was submitted in, unless one is named already. -/
def inField (name : String) : Fault → Fault
  | malformed expression none reason => malformed expression (some name) reason
  | fault => fault

/-- Whether the rules or the specifications are at fault, and not a document or an evaluator. -/
def isConfiguration : Fault → Bool
  | json _ | evaluation _ => false
  | _ => true

end Fault

/-- Reads a token as a rule call, with the token named in the fault. -/
def RuleCall.read (token : String) : Except Fault RuleCall :=
  (RuleCall.parse token).mapError fun reason => .malformed token none reason

end FieldRules
