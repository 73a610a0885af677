import FieldRules.Number.Numeral
import FieldRules.Number.Style

/-!
# Rule parameters

A parameter is a number or a text. A raw parameter that is a plain decimal literal becomes a number.
-/

namespace FieldRules

inductive RuleParam where
  | number (x : Binary64)
  | text (s : String)
  deriving DecidableEq

namespace RuleParam

/-- A parameter as it stands in messages and canonical forms. -/
def display : RuleParam → String
  | number x => NumberStyle.display.render x
  | text s => s

def typeName : RuleParam → String
  | number _ => "number"
  | text _ => "string"

def asText? : RuleParam → Option String
  | text s => some s
  | number _ => none

/-- Equality of parameters, with numbers compared as numbers. -/
def same : RuleParam → RuleParam → Bool
  | number x, number y => x.equals y
  | text s, text t => s == t
  | _, _ => false

/-- Whether a raw parameter is read as a number. -/
def isNumeric (raw : String) : Bool := (Numeral.ofLiteral? raw.toList).isSome

/-- Reads a raw parameter: a literal becomes the number that it stands for, and anything else stays text. -/
def ofRaw (raw : String) : RuleParam :=
  if isNumeric raw then
    match Numeral.ofText? (Numeral.padded raw.toList) with
    | some n => number n.toBinary64
    | none => text raw
  else text raw

end RuleParam

end FieldRules
