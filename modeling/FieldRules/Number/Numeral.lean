import FieldRules.Number.Decimal

/-!
# Numerals

Digits, and decimal numerals as they are written: a sign, digits before and after a point, and an exponent. A
numeral stands for the double nearest to it.
-/

namespace FieldRules

/-- The value of a digit in any base up to sixteen. -/
def digitIn? (base : Nat) (c : Char) : Option Nat :=
  let value? :=
    if c.isDigit then some (c.toNat - '0'.toNat)
    else if 'a' ≤ c ∧ c ≤ 'f' then some (c.toNat - 'a'.toNat + 10)
    else if 'A' ≤ c ∧ c ≤ 'F' then some (c.toNat - 'A'.toNat + 10)
    else none
  value?.filter (· < base)

/-- The values of digits of a base; there must be at least one. -/
def digitsIn? (base : Nat) (cs : List Char) : Option (List Nat) :=
  if cs.isEmpty then none else cs.mapM (digitIn? base)

/-- The number that digit values stand for. -/
def ofDigitValues (base : Nat) (ds : List Nat) : Nat := ds.foldl (fun n d => base * n + d) 0

def digitValue (c : Char) : Nat := c.toNat - '0'.toNat

/-- The number that decimal digits stand for. -/
def natOfDigits (cs : List Char) : Nat := ofDigitValues 10 (cs.map digitValue)

/-- A sign, if there is one, and what follows it. -/
def takeSign : List Char → Bool × List Char
  | '-' :: rest => (true, rest)
  | '+' :: rest => (false, rest)
  | cs => (false, cs)

structure Numeral where
  negative : Bool
  whole : List Char
  fraction : List Char
  exponent : Int
  deriving DecidableEq

namespace Numeral

/-- The double nearest to a numeral. -/
def toBinary64 (n : Numeral) : Binary64 :=
  .ofDecimal n.negative ⟨natOfDigits (n.whole ++ n.fraction), n.exponent - n.fraction.length⟩

/-- Any digits, and digits behind an optional point, which end the text. -/
def ofUnsigned? (negative : Bool) (cs : List Char) : Option Numeral :=
  let whole := cs.takeWhile Char.isDigit
  match cs.dropWhile Char.isDigit with
  | [] => if whole.isEmpty then none else some ⟨negative, whole, [], 0⟩
  | c :: fraction =>
    if c = '.' ∧ !fraction.isEmpty ∧ fraction.all Char.isDigit then some ⟨negative, whole, fraction, 0⟩ else none

/-- A plain literal: an optional minus sign, any digits, and digits behind an optional point. It ends in a
digit. -/
def ofLiteral? : List Char → Option Numeral
  | '-' :: rest => ofUnsigned? true rest
  | cs => ofUnsigned? false cs

/-- Puts a zero before a point that no digit stands before. -/
def padded : List Char → List Char
  | '-' :: '.' :: rest => '-' :: '0' :: '.' :: rest
  | '.' :: rest => '0' :: '.' :: rest
  | cs => cs

/-- The exponent part of a numeral: nothing at all, or a letter, a sign and digits. -/
def exponent? : List Char → Option Int
  | [] => some 0
  | c :: rest =>
    if c = 'e' ∨ c = 'E' then
      let (negative, digits) := takeSign rest
      if digits.isEmpty || !digits.all Char.isDigit then none
      else
        let e : Int := natOfDigits digits
        some (if negative then -e else e)
    else none

/-- A numeral with a sign, digits on at least one side of an optional point, and an optional exponent. -/
def ofText? (cs : List Char) : Option Numeral := do
  let (negative, cs) := takeSign cs
  let whole := cs.takeWhile Char.isDigit
  let (fraction, rest) := match cs.dropWhile Char.isDigit with
    | '.' :: r => (r.takeWhile Char.isDigit, r.dropWhile Char.isDigit)
    | r => ([], r)
  let exponent ← exponent? rest
  if whole.isEmpty && fraction.isEmpty then none else some ⟨negative, whole, fraction, exponent⟩

end Numeral

end FieldRules
