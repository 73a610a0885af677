import FieldRules.Proofs.Number.Decimal
import FieldRules.Proofs.Number.Order
import Mathlib.Algebra.Order.Monoid.WithTop
import Mathlib.Order.Monotone.Basic

/-!
# Values of doubles

The number that a double stands for. The key facts: `Binary64.less_iff_value` (comparison of doubles is comparison of
their values) and `Binary64.value?_ofNat` (whole numbers below `2 ^ 53` are doubles).
-/

namespace FieldRules.Binary64

/-- The rational numbers with an infinity at either end. -/
abbrev Extended := WithBot (WithTop ℚ)

/-- The number that a double stands for. NaN stands for none. -/
def value? : Binary64 → Option Extended
  | nan => none
  | infinity negative => some (if negative then ⊥ else ⊤)
  | finite negative rank => some (((if negative then -magnitude rank else magnitude rank : ℚ) : WithTop ℚ) : Extended)

theorem exists_value_iff {x : Binary64} : (∃ a, x.value? = some a) ↔ ¬ x.isNaN := by
  cases x <;> simp [value?, isNaN]

private theorem magnitude_lt_iff {j k : Nat} : magnitude j < magnitude k ↔ j < k := by
  have hpos : (0 : ℚ) < stepsOfOne := by exact_mod_cast stepsOfOne_pos
  rw [magnitude, magnitude, div_lt_div_iff_of_pos_right hpos, Nat.cast_lt, units_strictMono.lt_iff_lt]

/-! ### Comparison -/

/-- The number at a place of numeric order. -/
private def atPlace : ℤ → ℚ
  | .ofNat rank => magnitude rank
  | .negSucc rank => -magnitude (rank + 1)

private theorem atPlace_lt_succ (place : ℤ) : atPlace place < atPlace (place + 1) := by
  cases place with
  | ofNat rank => exact magnitude_lt_iff.2 (Nat.lt_succ_self rank)
  | negSucc rank =>
    cases rank with
    | zero =>
      have hone : magnitude 0 < magnitude 1 := magnitude_lt_iff.2 Nat.one_pos
      have hnext : (Int.negSucc 0 + 1 : ℤ) = .ofNat 0 := rfl
      rw [magnitude_zero] at hone
      rw [hnext, atPlace, atPlace, magnitude_zero]
      exact neg_lt_zero.2 hone
    | succ rank =>
      have hnext : (Int.negSucc (rank + 1) + 1 : ℤ) = .negSucc rank := by omega
      rw [hnext]
      exact neg_lt_neg (magnitude_lt_iff.2 (Nat.lt_succ_self _))

private theorem atPlace_lt_iff {a b : ℤ} : atPlace a < atPlace b ↔ a < b :=
  (strictMono_int_of_lt_succ atPlace_lt_succ).lt_iff_lt

private theorem atPlace_neg (rank : Nat) : atPlace (-(rank : ℤ)) = -magnitude rank := by
  cases rank with
  | zero => simp [atPlace, magnitude_zero]
  | succ rank => rfl

private theorem value?_finite (negative : Bool) (rank : Fin top) :
    (finite negative rank).value? =
      some ((atPlace (if negative then -(rank.val : ℤ) else rank.val) : WithTop ℚ) : Extended) := by
  cases negative with
  | false => rfl
  | true => simp [value?, atPlace_neg]

private theorem coe_lt_top (q : ℚ) : ((q : WithTop ℚ) : Extended) < ⊤ := WithBot.coe_lt_coe.2 (WithTop.coe_lt_top q)

/-- Doubles are compared by the numbers that they stand for. -/
theorem less_iff_value {x y : Binary64} {a b : Extended} (hx : x.value? = some a) (hy : y.value? = some b) :
    x.less y ↔ a < b := by
  have htop : (0 : ℤ) < top := by decide
  cases x with
  | nan => cases hx
  | infinity s =>
    obtain rfl := Option.some.inj hx
    cases y with
    | nan => cases hy
    | infinity t =>
      obtain rfl := Option.some.inj hy
      cases s <;> cases t <;> simp [less, place]
      omega
    | finite t rank =>
      rw [value?_finite, Option.some.injEq] at hy
      subst hy
      have hrank := rank.isLt
      cases s <;> cases t <;> simp [less, place]
      omega
  | finite s rank =>
    rw [value?_finite, Option.some.injEq] at hx
    subst hx
    have hrank := rank.isLt
    cases y with
    | nan => cases hy
    | infinity t =>
      obtain rfl := Option.some.inj hy
      cases s <;> cases t <;> simp [less, place, coe_lt_top]
      omega
    | finite t rank' =>
      rw [value?_finite, Option.some.injEq] at hy
      subst hy
      rw [WithBot.coe_lt_coe, WithTop.coe_lt_coe, atPlace_lt_iff]
      simp [less, place]

/-! ### Whole numbers -/

/-- A whole number with the magnitude of a rank. -/
theorem ofNat_of_units {n k : Nat} (h : units k = n * stepsOfOne) : ofNat n = ofRank false k := by
  have hrank : nearestRank (n * stepsOfOne) 1 = k := by
    rw [← h, ← Nat.mul_one (units k)]
    exact nearestRank_units Nat.one_pos
  exact congrArg (ofRank false) hrank

private theorem magnitude_eq_iff {n k : Nat} : magnitude k = n ↔ units k = n * stepsOfOne := by
  have hpos : (stepsOfOne : ℚ) ≠ 0 := by exact_mod_cast stepsOfOne_pos.ne'
  rw [magnitude, div_eq_iff hpos, ← Nat.cast_mul, Nat.cast_inj]

/-- A whole number below `2 ^ 53` has the magnitude of a rank. -/
theorem exists_units_of_lt {n : Nat} (h : n < 2 ^ 53) : ∃ k < top, units k = n * stepsOfOne := by
  obtain ⟨k, hk⟩ : ∃ k, units k = n * stepsOfOne := by
    unfold stepsOfOne
    generalize 1074 = scale
    exact exists_units_eq h scale
  refine ⟨k, ?_, hk⟩
  rw [← magnitude_lt_iff, magnitude_top, magnitude_eq_iff.2 hk]
  calc (n : ℚ) < 2 ^ 53 := by exact_mod_cast h
    _ ≤ 2 ^ 1024 := pow_le_pow_right₀ (by norm_num) (by norm_num)

/-- Whole numbers below `2 ^ 53` are doubles. -/
theorem value?_ofNat {n : Nat} (h : n < 2 ^ 53) : (ofNat n).value? = some (n : Extended) := by
  obtain ⟨k, htop, hk⟩ := exists_units_of_lt h
  rw [ofNat_of_units hk, ofRank, dif_pos htop, value?, if_neg Bool.false_ne_true, magnitude_eq_iff.2 hk]
  rfl

end FieldRules.Binary64
