import FieldRules.Rule.Param
import FieldRules.Text.Blank

/-!
# Loose numbers

The number that a loosely typed comparison sees in a text: blanks around it do not count, nothing at all is zero,
integers may be written in base 16, 8 or 2, and what is no number is NaN.
-/

namespace FieldRules.Loose

/-- Takes one more digit into a number that is not negative, rounding the result. -/
def takeDigit (base : Nat) (x : Binary64) (digit : Nat) : Binary64 :=
  match x with
  | .finite _ rank =>
    .ofRank false (Binary64.nearestRank (Binary64.units rank * base + digit * Binary64.stepsOfOne) 1)
  | x => x

/-- An integer in the given base, rounded after every digit. -/
def radixNumber (base : Nat) (digits : List Char) : Binary64 :=
  match digitsIn? base digits with
  | none => .nan
  | some values => values.foldl (takeDigit base) (.zero false)

def ofTrimmed : List Char → Binary64
  | [] => .zero false
  | '0' :: 'x' :: digits | '0' :: 'X' :: digits => radixNumber 16 digits
  | '0' :: 'o' :: digits | '0' :: 'O' :: digits => radixNumber 8 digits
  | '0' :: 'b' :: digits | '0' :: 'B' :: digits => radixNumber 2 digits
  | cs =>
    if cs = "Infinity".toList ∨ cs = "+Infinity".toList then .infinity false
    else if cs = "-Infinity".toList then .infinity true
    else ((Numeral.ofText? cs).map Numeral.toBinary64).getD .nan

/-- Blank characters, and the mark that may stand at the start of a text. -/
def isPadding (c : Char) : Bool := Text.isBlank c || c == '\ufeff'

end Loose

/-- The number of a parameter in a loose comparison. -/
def RuleParam.loose : RuleParam → Binary64
  | number x => x
  | text s => Loose.ofTrimmed (Text.trim Loose.isPadding s.toList)

end FieldRules
