import FieldRules.Fault
import FieldRules.Field

/-!
# Rule definitions

A rule has a name, a number of parameters, an evaluator and the template of the message for fields that fail it.
-/

namespace FieldRules

/-- Decides whether a field passes; an evaluator may also give up with a fault. -/
abbrev Evaluator := Field → List RuleParam → Except Fault Bool

structure RuleDefinition where
  name : String
  parameterCount : Nat
  evaluate : Evaluator
  template : String

namespace RuleDefinition

/-- The number of arguments of the rule, the field included. -/
def arity (d : RuleDefinition) : Nat := d.parameterCount + 1

/-- The same rule with another message. -/
def withTemplate (d : RuleDefinition) (template : String) : RuleDefinition := { d with template }

@[simp] theorem name_withTemplate (d : RuleDefinition) (template : String) : (d.withTemplate template).name = d.name :=
  rfl

/-- A definition as it is shown in diagnostics; the evaluator is left out. -/
def describe (d : RuleDefinition) : String :=
  "RuleDefinition \x7b name: " ++ Text.quoted d.name ++ ", parameter_count: " ++ Nat.repr d.parameterCount ++
    ", message_template: " ++ Text.quoted d.template ++ ", .. \x7d"

end RuleDefinition

end FieldRules
