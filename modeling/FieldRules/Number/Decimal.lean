import FieldRules.Number.Binary64

/-!
# Decimal numerals and doubles

`Decimal` is a numeral `digits * 10 ^ exponent`. `Binary64.ofDecimal` reads one, correctly rounded; `shortest`
writes a finite magnitude with the fewest digits that read back as the same number, and of those the nearest.
-/

namespace FieldRules

structure Decimal where
  digits : Nat
  exponent : Int
  deriving DecidableEq

/-- Which of two equally near numerals is written. -/
inductive TieRule where
  | up
  | even

/-- The double nearest to a decimal numeral. Numerals beyond every finite double, or nearer to zero than half
of the least one, are settled from their size alone. -/
def Binary64.ofDecimal (negative : Bool) (d : Decimal) : Binary64 :=
  if d.digits = 0 then zero negative
  else if 400 < d.exponent then infinity negative
  else if d.exponent < -(400 + (Nat.log2 d.digits : Int)) then zero negative
  else match d.exponent with
    | .ofNat e => ofRatio negative (d.digits * Nat.pow 10 e) 1
    | .negSucc e => ofRatio negative d.digits (Nat.pow 10 (e + 1))

namespace Decimal

/-- The number of decimal digits of a positive number. -/
def width (n : Nat) : Nat := (Nat.toDigits 10 n).length

/-- Moves trailing zeros into the exponent. -/
def trim (d : Decimal) : Decimal :=
  if h : d.digits ≠ 0 ∧ d.digits % 10 = 0 then trim ⟨d.digits / 10, d.exponent + 1⟩ else d
termination_by d.digits
decreasing_by omega

/-- The value of a rank written out in full: a step of `2 ^ (-1074)` is `5 ^ 1074` steps of `10 ^ (-1074)`. -/
def exact (rank : Nat) : Decimal := ⟨Binary64.units rank * Nat.pow 5 1074, -1074⟩

/-- The numeral without the last `drop` digits that reads back as `rank`, when there is one: the value lies between
two neighbours with that many digits, and the nearer of those that read back is taken. -/
def withoutDigits? (tie : TieRule) (rank : Nat) (full : Decimal) (drop : Nat) : Option Decimal :=
  let low := full.digits / Nat.pow 10 drop
  let rest := 2 * (full.digits % Nat.pow 10 drop)
  let reads (n : Nat) := Binary64.ofDecimal false ⟨n, full.exponent + drop⟩ = Binary64.ofRank false rank
  let below := if reads low then some low else none
  let above := if reads (low + 1) then some (low + 1) else none
  let pick := match below, above with
    | some a, some b =>
      if rest < Nat.pow 10 drop then some a
      else if Nat.pow 10 drop < rest then some b
      else match tie with
        | .up => some b
        | .even => some (if low % 2 = 0 then a else b)
    | some a, none => some a
    | none, b => b
  pick.map fun n => trim ⟨n, full.exponent + drop⟩

/-- The shortest numeral that reads back as the number of a rank; seventeen digits always suffice. -/
def shortest (tie : TieRule) (rank : Nat) : Decimal :=
  if rank = 0 then ⟨0, 0⟩
  else
    let full := exact rank
    let count := width full.digits
    ((List.range 17).findSome? fun i => withoutDigits? tie rank full (count - (i + 1))).getD full

end Decimal

end FieldRules
