import FieldRules.Registry
import FieldRules.Rule.Json
import FieldRules.Text.Blank

/-!
# Explained rule tokens

How a token is understood: the call it reads as, and why it is rejected, if it is. With a registry at hand, a call
is also rejected when its rule is not there or takes another number of parameters.
-/

namespace FieldRules

open Data (Value)

/-- Why a token is rejected. -/
inductive Rejection where
  | fault (fault : Fault)
  | arity (rule : String) (parameterCount : Nat) (call : RuleCall)
  deriving DecidableEq

def Rejection.message : Rejection → String
  | fault f => f.message
  | arity rule parameterCount call =>
    "Rule \"" ++ rule ++ "\" expects " ++ Nat.repr parameterCount ++ " extra parameters, \"" ++ call.canonical ++
      "\" passes " ++ Nat.repr call.params.length ++ "."

/-- Checks that a call can be run. -/
def Registry.check (r : Registry) (call : RuleCall) : Except Rejection Unit := do
  let d ← (r.lookup call.name).mapError .fault
  if d.arity ≠ call.argumentCount then throw (.arity d.name d.parameterCount call)

/-- A token, the call it reads as, and why it is rejected. -/
structure Explanation where
  token : String
  call : Option RuleCall
  rejection : Option Rejection
  deriving DecidableEq

namespace Explanation

/-- Reads a token, and checks the call when a registry is given. -/
def ofToken (registry : Option Registry) (token : String) : Explanation :=
  match RuleCall.read token with
  | .error fault => ⟨token, none, some (.fault fault)⟩
  | .ok call =>
    let rejection := match registry with
      | none => none
      | some r =>
        match r.check call with
        | .ok () => none
        | .error rejection => some rejection
    ⟨token, some call, rejection⟩

def isAccepted (e : Explanation) : Bool := e.rejection.isNone

def paramValue (p : RuleParam) : Value := .map [("type", .string p.typeName), ("value", p.toValue)]

def params (e : Explanation) : List RuleParam := (e.call.map RuleCall.params).getD []

def toValue (e : Explanation) : Value :=
  .map (("expression", .string e.token) ::
    (e.call.toList.map fun call => ("rule_name", .string call.name)) ++
    ("parameters", .list (e.params.map paramValue)) ::
    (e.call.toList.map fun call => ("canonical", .string call.canonical)) ++
    (e.rejection.toList.map fun r => ("error", .string r.message)))

def paramText (p : RuleParam) : String := p.display ++ " (" ++ p.typeName ++ ")"

/-- The lines for people. -/
def text (e : Explanation) : String :=
  let line (label : String) (s : String) := "  " ++ label ++ s ++ "\n"
  "📝 " ++ (if e.token.isEmpty then "(empty)" else e.token) ++ "\n" ++
    e.call.elim "" (fun call => line "Rule: " call.name) ++
    (if e.params.isEmpty then "" else line "Parameters: " (", ".intercalate (e.params.map paramText))) ++
    e.call.elim "" (fun call => line "Canonical: " call.canonical) ++
    e.rejection.elim "" (fun r => line "❌ " r.message)

/-- The text of several explanations, with an empty line between them. -/
def listText (es : List Explanation) : String :=
  String.ofList (Text.trimEnd Text.isBlank ("\n".intercalate (es.map text)).toList)

end Explanation

end FieldRules
