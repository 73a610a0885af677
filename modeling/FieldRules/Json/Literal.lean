import FieldRules.Data.Number
import FieldRules.Number.Numeral

/-!
# JSON number literals

A number literal as it is written, and the number it stands for. Whole numbers of 64 bits are kept exactly; every
other literal becomes a double by scaling a 64-bit significand once by a power of ten, so it may miss the nearest
double by a little.
-/

namespace FieldRules.Json

open Data (Number)

/-- A number literal: sign, digits before and after the point, and an exponent with its sign. -/
structure Literal where
  negative : Bool
  whole : List Char
  fraction : List Char
  exponent : Option (Bool × List Char)
  deriving DecidableEq

namespace Literal

/-- Takes digits into a significand until the next one would carry it past 64 bits. -/
def absorb (significand : Nat) : List Char → Nat × List Char
  | [] => (significand, [])
  | d :: rest =>
    let next := 10 * significand + digitValue d
    if next < UInt64.size then absorb next rest else (significand, d :: rest)

def powerOfTen (e : Nat) : Binary64 := .ofNat (Nat.pow 10 e)

/-- Divides a 64-bit number by `10 ^ e`, in two steps when that power of ten is not finite; beyond those two
nothing is left of it. -/
def scaleDown (x : Binary64) (e : Nat) : Binary64 :=
  if e ≤ 308 then x.div (powerOfTen e)
  else if e ≤ 616 then (x.div (powerOfTen 308)).div (powerOfTen (e - 308))
  else .zero false

/-- The double `significand * 10 ^ exponent`, unless it is out of range. -/
def scale? (significand : Nat) : Int → Option Binary64
  | .ofNat e =>
    if significand = 0 then some (.zero false)
    else if e ≤ 308 then
      let x := (Binary64.ofNat significand).mul (powerOfTen e)
      if x.isFinite then some x else none
    else none
  | .negSucc e => some (scaleDown (.ofNat significand) (e + 1))

/-- The number of a literal; there is none when its magnitude is too large. -/
def number? (l : Literal) : Option Number :=
  let (wholePart, wholeRest) := absorb 0 l.whole
  let (significand, fractionRest) := absorb wholePart l.fraction
  let shift : Int := wholeRest.length - (l.fraction.length - fractionRest.length : Nat)
  let signed (x : Binary64) : Number := .real (if l.negative then x.neg else x)
  match l.exponent with
  | some (negative, digits) =>
    let e := natOfDigits digits
    if UInt32.size / 2 ≤ e then
      if significand ≠ 0 ∧ !negative then none else some (signed (.zero false))
    else (scale? significand (shift + if negative then -(e : Int) else e)).map signed
  | none =>
    if l.fraction.isEmpty && wholeRest.isEmpty then
      if !l.negative then some (.natural significand)
      else if 1 ≤ significand ∧ significand ≤ UInt64.size / 2 then some (.negative significand)
      else some (signed (.ofNat significand))
    else (scale? significand shift).map signed

end Literal

end FieldRules.Json
