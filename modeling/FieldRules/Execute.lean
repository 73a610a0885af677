import FieldRules.Registry

/-!
# Running one rule

A rule call is run against a field by looking its rule up, checking the number of parameters, and asking the
evaluator. An evaluator is never asked with another number of parameters than its rule declares.
-/

namespace FieldRules

/-- What came of running a rule: its parameters, and the message template when the field failed it. -/
structure Outcome where
  params : List RuleParam
  template : Option String
  deriving DecidableEq

def Outcome.isValid (o : Outcome) : Bool := o.template.isNone

/-- Looks up the rule of a call and checks the number of parameters. -/
def Registry.resolve (r : Registry) (field : String) (call : RuleCall) : Except Fault RuleDefinition := do
  let d ← r.lookup call.name
  if d.parameterCount = call.params.length then return d
  else throw (.arity field d.name call.canonical d.parameterCount call.params.length)

def execute (r : Registry) (field : Field) (call : RuleCall) : Except Fault Outcome := do
  let d ← r.resolve field.name call
  let valid ← d.evaluate field call.params
  return ⟨call.params, if valid then none else some d.template⟩

end FieldRules
