import FieldRules.Number.Style

/-!
# Numbers in data

A number in a document is a natural number, a negative integer, or a double. YAML has a zero with a minus sign among its
integers, where JSON reads a double.
-/

namespace FieldRules.Data

inductive Number where
  | natural (n : Nat)
  | negative (n : Nat)
  | minusZero
  | real (x : Binary64)
  deriving DecidableEq

namespace Number

/-- The text of a number when it is put into a text field. -/
def text : Number → String
  | natural n => String.ofList (Nat.toDigits 10 n)
  | negative n => String.ofList ('-' :: Nat.toDigits 10 n)
  | minusZero => "0"
  | real x => NumberStyle.json.render x

def toBinary64 : Number → Binary64
  | natural n => .ofNat n
  | negative n => (Binary64.ofNat n).neg
  | minusZero => .zero false
  | real x => x

end Number

end FieldRules.Data
