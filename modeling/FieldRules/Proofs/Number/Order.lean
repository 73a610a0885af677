import FieldRules.Number.Binary64

/-!
# Numeric order

Comparison of doubles by their places. The key facts: `Binary64.less_iff` and `Binary64.not_zero_less_iff` (a number that
does not lie above zero is no number, a zero, or lies below zero).
-/

namespace FieldRules.Binary64

private theorem place_eq_none_iff {x : Binary64} : x.place = none ↔ x.isNaN := by
  cases x <;> simp [place, isNaN]

theorem place_eq_zero_iff {x : Binary64} : x.place = some 0 ↔ x.isZero := by
  cases x with
  | nan => simp [place, isZero]
  | infinity negative => cases negative <;> decide
  | finite negative rank => cases negative <;> simp [place, isZero, -Fin.val_eq_zero_iff]

private theorem place_zero (negative : Bool) : (zero negative).place = some 0 := by
  cases negative <;> decide

theorem ofNat_zero : ofNat 0 = zero false := by decide +kernel

theorem less_iff {x y : Binary64} : x.less y ↔ ∃ a b, x.place = some a ∧ y.place = some b ∧ a < b := by
  unfold less
  cases x.place <;> cases y.place <;> simp

private theorem zero_less_iff {negative : Bool} {x : Binary64} :
    (zero negative).less x ↔ ∃ a, x.place = some a ∧ 0 < a := by
  simp [less_iff, place_zero]

theorem less_zero_iff {negative : Bool} {x : Binary64} : x.less (zero negative) ↔ ∃ a, x.place = some a ∧ a < 0 := by
  simp [less_iff, place_zero]

/-- What does not lie above zero lies below it, is a zero or is no number. -/
theorem not_zero_less_iff {negative : Bool} {x : Binary64} :
    ¬ (zero negative).less x ↔ x.isZero ∨ x.less (zero negative) ∨ x.isNaN := by
  rw [zero_less_iff, less_zero_iff, ← place_eq_zero_iff, ← place_eq_none_iff]
  cases x.place with
  | none => simp
  | some a => simp; omega

end FieldRules.Binary64
