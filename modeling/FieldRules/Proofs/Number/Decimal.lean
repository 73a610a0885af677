import FieldRules.Number.Decimal
import FieldRules.Proofs.Number.Rounding
import Mathlib.Algebra.Order.Field.Power
import Mathlib.Data.Rat.Floor
import Mathlib.Tactic.FieldSimp
import Mathlib.Tactic.NormNum
import Mathlib.Tactic.Positivity

/-!
# Reading and shortening decimals

A decimal numeral is read as the double of the rank nearest to its value. The key facts: `ofDecimal_eq_ofRank` (the
shortcuts for very large and very small numerals agree with the rounding), so that reading depends on the value
alone; `rankOf_mono`; and `rankOf_shortest` (the shortest numeral of a rank reads back as that rank).
-/

namespace FieldRules

/-- The number that a numeral stands for. -/
def Decimal.value (d : Decimal) : ℚ := d.digits * 10 ^ d.exponent

namespace Binary64

/-- The rank nearest to a number that is not negative. -/
def rankOf (q : ℚ) : Nat := nearestRank (q.num.toNat * stepsOfOne) q.den

/-- The number that a rank stands for. -/
def magnitude (rank : Nat) : ℚ := units rank / stepsOfOne

theorem stepsOfOne_pos : 0 < stepsOfOne := by decide +kernel

/-! ### The rank nearest to a number -/

theorem rankOf_mono {p q : ℚ} (h : p ≤ q) : rankOf p ≤ rankOf q := by
  apply nearestRank_mono p.den_pos q.den_pos
  have hle : p.num.toNat * q.den ≤ q.num.toNat * p.den := by
    have hnum := (Rat.le_iff p q).1 h
    by_cases hp : p.num ≤ 0
    · rw [Int.toNat_of_nonpos hp]
      omega
    · have hq : 0 < q.num := Rat.num_pos.2 (lt_of_lt_of_le (Rat.num_pos.1 (not_le.1 hp)) h)
      zify
      rw [Int.toNat_of_nonneg (by omega), Int.toNat_of_nonneg hq.le]
      exact hnum
  calc p.num.toNat * stepsOfOne * q.den = p.num.toNat * q.den * stepsOfOne := by ring
    _ ≤ q.num.toNat * p.den * stepsOfOne := Nat.mul_le_mul_right _ hle
    _ = q.num.toNat * stepsOfOne * p.den := by ring

theorem rankOf_div {num den : Nat} (hden : 0 < den) :
    rankOf (num / den) = nearestRank (num * stepsOfOne) den := by
  apply nearestRank_congr (Rat.den_pos _) hden
  have hq : (num / den : ℚ).num * den = num * (num / den : ℚ).den := by
    have h := Rat.num_div_den (num / den : ℚ)
    have hd : ((num / den : ℚ).den : ℚ) ≠ 0 := by exact_mod_cast Rat.den_ne_zero _
    have hd' : (den : ℚ) ≠ 0 := by exact_mod_cast hden.ne'
    rw [div_eq_div_iff hd hd'] at h
    exact_mod_cast h
  have hnum : (0 : Int) ≤ (num / den : ℚ).num := Rat.num_nonneg.2 (by positivity)
  have hnat : (num / den : ℚ).num.toNat * den = num * (num / den : ℚ).den := by
    zify
    rw [Int.toNat_of_nonneg hnum]
    exact hq
  calc (num / den : ℚ).num.toNat * stepsOfOne * den = (num / den : ℚ).num.toNat * den * stepsOfOne := by ring
    _ = num * stepsOfOne * (num / den : ℚ).den := by rw [hnat]; ring

theorem ofRatio_eq_ofRank (negative : Bool) {num den : Nat} (hden : 0 < den) :
    ofRatio negative num den = ofRank negative (rankOf (num / den)) := by
  rw [rankOf_div hden]
  rfl

/-- The number of a rank is rounded to that rank. -/
private theorem rankOf_magnitude (k : Nat) : rankOf (magnitude k) = k := by
  unfold magnitude
  rw [rankOf_div stepsOfOne_pos]
  exact nearestRank_units stepsOfOne_pos

/-- A number is rounded past a rank when it lies above the midpoint to the next one, or on it and the rank is odd. -/
private theorem lt_rankOf_iff {k : Nat} {q : ℚ} (hq : 0 ≤ q) :
    k < rankOf q ↔ magnitude k + magnitude (k + 1) < 2 * q ∨ (magnitude k + magnitude (k + 1) = 2 * q ∧ k % 2 = 1) := by
  have hsteps : (0 : ℚ) < stepsOfOne := by exact_mod_cast stepsOfOne_pos
  have hden : (0 : ℚ) < q.den := by exact_mod_cast q.den_pos
  have hnum : (q.num.toNat : ℚ) = q * q.den := by
    have hcast : ((q.num.toNat : ℤ) : ℚ) = (q.num : ℚ) := by rw [Int.toNat_of_nonneg (Rat.num_nonneg.2 hq)]
    rw [← Int.cast_natCast, hcast, Rat.mul_den_eq_num]
  have hmid : magnitude k + magnitude (k + 1) = ((units k + units (k + 1) : Nat) : ℚ) / stepsOfOne := by
    rw [magnitude, magnitude, ← add_div, Nat.cast_add]
  rw [hmid, div_lt_iff₀ hsteps, div_eq_iff hsteps.ne', rankOf, lt_nearestRank_iff q.den_pos]
  generalize units k + units (k + 1) = ends
  have hscale : 2 * q * stepsOfOne * q.den = ((2 * (q.num.toNat * stepsOfOne) : Nat) : ℚ) := by
    push_cast
    rw [hnum]
    ring
  rw [← mul_lt_mul_iff_left₀ hden, ← mul_left_inj' hden.ne', hscale, ← Nat.cast_mul, Nat.cast_lt, Nat.cast_inj]

theorem magnitude_zero : magnitude 0 = 0 := by
  rw [magnitude, units_of_lt (by decide), Nat.cast_zero, zero_div]

private theorem rankOf_zero : rankOf 0 = 0 := by
  rw [← magnitude_zero]
  exact rankOf_magnitude 0

/-- The first magnitude that is not finite. -/
theorem magnitude_top : magnitude top = 2 ^ 1024 := by
  have h : units top = 2 ^ 1024 * stepsOfOne := by decide +kernel
  have hpos : (stepsOfOne : ℚ) ≠ 0 := by exact_mod_cast stepsOfOne_pos.ne'
  rw [magnitude, h, Nat.cast_mul, Nat.cast_pow, Nat.cast_ofNat, mul_div_cancel_right₀ _ hpos]

/-- The last magnitude that is finite is one step of its binade less. -/
private theorem magnitude_last : magnitude (top - 1) = 2 ^ 1024 - 2 ^ 971 := by
  have h : units (top - 1) + 2 ^ 971 * stepsOfOne = units top := by decide +kernel
  have hpos : (stepsOfOne : ℚ) ≠ 0 := by exact_mod_cast stepsOfOne_pos.ne'
  apply eq_sub_of_add_eq
  rw [← magnitude_top, magnitude, magnitude, ← h, Nat.cast_add, Nat.cast_mul, add_div, Nat.cast_pow, Nat.cast_ofNat,
    mul_div_cancel_right₀ _ hpos]

/-- A finite magnitude is nearest to what lies below the midpoint of the last one and the first that is not finite. -/
theorem rankOf_lt_top_iff {q : ℚ} (hq : 0 ≤ q) : rankOf q < top ↔ q < 2 ^ 1024 - 2 ^ 970 := by
  have htop : top - 1 + 1 = top := by decide
  have hodd : (top - 1) % 2 = 1 := by decide
  have hmid : magnitude (top - 1) + magnitude (top - 1 + 1) = 2 * (2 ^ 1024 - 2 ^ 970) := by
    have hpow : (2 : ℚ) ^ 971 = 2 * 2 ^ 970 := pow_succ' 2 970
    rw [htop, magnitude_top, magnitude_last, hpow]
    ring
  have hlt := lt_rankOf_iff (k := top - 1) hq
  rw [hmid] at hlt
  rw [← not_iff_not, not_lt, not_lt, ← htop, Nat.succ_le_iff, hlt, and_iff_left hodd, ← le_iff_lt_or_eq]
  exact mul_le_mul_iff_right₀ (by norm_num)

private theorem top_le_rankOf {q : ℚ} (h : 2 ^ 1024 ≤ q) : top ≤ rankOf q := by
  rw [← rankOf_magnitude top, magnitude_top]
  exact rankOf_mono h

/-- Less than half of the least magnitude is rounded to zero. -/
theorem rankOf_eq_zero {q : ℚ} (h : q ≤ 1 / 2 ^ 1076) : rankOf q = 0 := by
  have hq := rankOf_mono h
  have hzero : rankOf (1 / 2 ^ 1076) = 0 := by
    have hcast : (1 / 2 ^ 1076 : ℚ) = ((1 : Nat) : ℚ) / ((2 ^ 1076 : Nat) : ℚ) := by
      rw [Nat.cast_one, Nat.cast_pow, Nat.cast_ofNat]
    rw [hcast, rankOf_div (by positivity)]
    decide +kernel
  omega

/-! ### Reading a decimal -/

theorem two_pow_le_ten_pow {m n : Nat} (h : m ≤ 3 * n) : (2 : ℚ) ^ m ≤ 10 ^ n :=
  calc (2 : ℚ) ^ m ≤ 2 ^ (3 * n) := pow_le_pow_right₀ (by norm_num) h
    _ = (2 ^ 3) ^ n := pow_mul 2 3 n
    _ ≤ 10 ^ n := pow_le_pow_left₀ (by norm_num) (by norm_num) n

/-- A numeral with an exponent above 400 lies beyond every finite double. -/
private theorem two_pow_le_value {d : Decimal} (h0 : d.digits ≠ 0) (h : 400 < d.exponent) :
    2 ^ 1024 ≤ d.value := by
  have hdigits : (1 : ℚ) ≤ d.digits := by exact_mod_cast Nat.pos_of_ne_zero h0
  calc (2 : ℚ) ^ 1024 ≤ 10 ^ 401 := two_pow_le_ten_pow (by norm_num)
    _ = 10 ^ ((401 : Nat) : ℤ) := (zpow_natCast 10 401).symm
    _ ≤ 10 ^ d.exponent := zpow_le_zpow_right₀ (by norm_num) (by omega)
    _ ≤ d.digits * 10 ^ d.exponent := le_mul_of_one_le_left (by positivity) hdigits

/-- A numeral whose exponent outweighs its digits by 400 lies below half of the least double. -/
private theorem value_le_of_exponent_lt {d : Decimal} (h : d.exponent < -(400 + (Nat.log2 d.digits : ℤ))) :
    d.value ≤ 1 / 2 ^ 1076 := by
  obtain ⟨l, hl⟩ : ∃ l, Nat.log2 d.digits = l := ⟨_, rfl⟩
  rw [hl] at h
  have hdigits : (d.digits : ℚ) ≤ 2 ^ (l + 1) := by exact_mod_cast (hl ▸ Nat.lt_log2_self (n := d.digits)).le
  have hten : (2 : ℚ) ^ (1076 + (l + 1)) ≤ 10 ^ (401 + l) := two_pow_le_ten_pow (by omega)
  calc d.value ≤ 2 ^ (l + 1) * 10 ^ (-((401 + l : Nat) : ℤ)) := by
        unfold Decimal.value
        gcongr
        · norm_num
        · omega
    _ = 2 ^ (l + 1) / 10 ^ (401 + l) := by rw [zpow_neg, zpow_natCast, div_eq_mul_inv]
    _ ≤ 2 ^ (l + 1) / 2 ^ (1076 + (l + 1)) := by gcongr
    _ = 1 / 2 ^ 1076 := by
        rw [pow_add _ 1076, div_mul_cancel_right₀ (pow_ne_zero _ (by norm_num)), one_div]

/-- A numeral is read as the double of the rank nearest to its value. -/
theorem ofDecimal_eq_ofRank (negative : Bool) (d : Decimal) :
    ofDecimal negative d = ofRank negative (rankOf d.value) := by
  obtain ⟨digits, exponent⟩ := d
  unfold ofDecimal
  split
  · rename_i h0
    simp only at h0
    simp only [Decimal.value, h0, Nat.cast_zero, zero_mul, rankOf_zero]
    rfl
  · rename_i h0
    split
    · rename_i hlarge
      exact (ofRank_of_top_le (top_le_rankOf (two_pow_le_value h0 hlarge))).symm
    · split
      · rename_i hsmall
        rw [rankOf_eq_zero (value_le_of_exponent_lt hsmall)]
        rfl
      · cases exponent with
        | ofNat e =>
          have hvalue : (Decimal.mk digits (.ofNat e)).value = ((digits * 10 ^ e : Nat) : ℚ) / ((1 : Nat) : ℚ) := by
            simp [Decimal.value]
          rw [hvalue]
          exact ofRatio_eq_ofRank negative Nat.one_pos
        | negSucc e =>
          have hvalue : (Decimal.mk digits (.negSucc e)).value = (digits : ℚ) / ((10 ^ (e + 1) : Nat) : ℚ) := by
            simp [Decimal.value, zpow_negSucc, div_eq_mul_inv]
          rw [hvalue]
          exact ofRatio_eq_ofRank negative (Nat.pow_pos (by decide))

/-- The numerals that are read as finite doubles. -/
theorem isFinite_ofDecimal_iff {negative : Bool} {d : Decimal} :
    (ofDecimal negative d).isFinite ↔ d.value < 2 ^ 1024 - 2 ^ 970 := by
  have hvalue : 0 ≤ d.value := by
    unfold Decimal.value
    positivity
  rw [ofDecimal_eq_ofRank, isFinite_ofRank, rankOf_lt_top_iff hvalue]

end Binary64

namespace Decimal

open Binary64

/-! ### The shortest numeral -/

private theorem value_trim (d : Decimal) : (trim d).value = d.value := by
  induction d using trim.induct with
  | case1 d h ih =>
    unfold trim
    rw [dif_pos h, ih]
    have hdigits : (d.digits : ℚ) = 10 * (d.digits / 10 : Nat) := by
      exact_mod_cast (Nat.mul_div_cancel' (Nat.dvd_of_mod_eq_zero h.2)).symm
    simp only [value]
    rw [hdigits, zpow_add₀ (by norm_num), zpow_one]
    ring
  | case2 d h =>
    unfold trim
    rw [dif_neg h]

/-- A number of `n`-th binary steps, counted in `n`-th decimal ones. -/
private theorem five_pow_value (u : Nat) {n steps : Nat} {e : ℤ} (hs : steps = Nat.pow 2 n) (he : e = -n) :
    ((u * Nat.pow 5 n : Nat) : ℚ) * 10 ^ e = u / steps := by
  have hten : (10 : ℚ) ^ n = 5 ^ n * 2 ^ n := by rw [← mul_pow]; norm_num
  simp only [hs, he, Nat.pow_eq, zpow_neg, zpow_natCast, hten]
  push_cast
  field_simp

/-- A rank written out in full has the magnitude of the rank. -/
private theorem value_exact (k : Nat) : (exact k).value = magnitude k := by
  simp only [exact, value, magnitude]
  exact five_pow_value (units k) (by decide +kernel) (by norm_num)

/-- A numeral found by leaving out digits is a neighbour of the value with the digits that are left, without trailing
zeros, and reads back as the rank. -/
theorem exists_of_withoutDigits? {tie : TieRule} {k : Nat} {full d : Decimal} {drop : Nat}
    (h : withoutDigits? tie k full drop = some d) :
    ∃ n, (n = full.digits / 10 ^ drop ∨ n = full.digits / 10 ^ drop + 1) ∧
      ofDecimal false ⟨n, full.exponent + drop⟩ = ofRank false k ∧ d = trim ⟨n, full.exponent + drop⟩ := by
  unfold withoutDigits? at h
  simp only [Option.map_eq_some_iff] at h
  obtain ⟨n, hpick, rfl⟩ := h
  -- a candidate is tested before it is picked
  have htested {m x : Nat} (hx : (if ofDecimal false ⟨m, full.exponent + drop⟩ = ofRank false k
      then some m else none) = some x) : x = m ∧ ofDecimal false ⟨x, full.exponent + drop⟩ = ofRank false k := by
    obtain ⟨hm, hmx⟩ := Option.ite_none_right_eq_some.1 hx
    obtain rfl := Option.some.inj hmx
    exact ⟨rfl, hm⟩
  suffices hn : (n = full.digits / 10 ^ drop ∨ n = full.digits / 10 ^ drop + 1) ∧
      ofDecimal false ⟨n, full.exponent + drop⟩ = ofRank false k from ⟨n, hn.1, hn.2, rfl⟩
  split at hpick
  · rename_i a b hbelow habove
    have hn : n = a ∨ n = b := by
      split at hpick
      · exact .inl (Option.some.inj hpick).symm
      · split at hpick
        · exact .inr (Option.some.inj hpick).symm
        · cases tie with
          | up => exact .inr (Option.some.inj hpick).symm
          | even =>
            have := Option.some.inj hpick
            split at this <;> omega
    rcases hn with rfl | rfl
    · exact ⟨.inl (htested hbelow).1, (htested hbelow).2⟩
    · exact ⟨.inr (htested habove).1, (htested habove).2⟩
  · rename_i hbelow _
    exact ⟨.inl (htested (hbelow.trans hpick)).1, (htested (hbelow.trans hpick)).2⟩
  · exact ⟨.inr (htested hpick).1, (htested hpick).2⟩

private theorem rankOf_withoutDigits {tie : TieRule} {k : Nat} (hk : k < top) {full d : Decimal} {drop : Nat}
    (h : withoutDigits? tie k full drop = some d) : rankOf d.value = k := by
  obtain ⟨n, -, hreads, rfl⟩ := exists_of_withoutDigits? h
  rw [ofDecimal_eq_ofRank] at hreads
  rw [value_trim]
  exact ofRank_inj hk hreads

/-- The shortest numeral of a rank reads back as that rank. -/
theorem rankOf_shortest (tie : TieRule) {k : Nat} (hk : k < top) : rankOf (shortest tie k).value = k := by
  unfold shortest
  split
  · rename_i h0
    rw [h0]
    simp [value, rankOf_zero]
  · simp only
    generalize hfound : List.findSome? _ _ = found
    cases found with
    | none => rw [Option.getD_none, value_exact, rankOf_magnitude]
    | some d =>
      obtain ⟨i, -, hi⟩ := List.exists_of_findSome?_eq_some hfound
      exact rankOf_withoutDigits hk hi

theorem digits_shortest_ne_zero (tie : TieRule) {k : Nat} (hk : k < top) (h0 : k ≠ 0) :
    (shortest tie k).digits ≠ 0 := by
  intro hd
  apply h0
  rw [← rankOf_shortest tie hk]
  simp [value, hd, rankOf_zero]

end Decimal

end FieldRules
