import FieldRules.Proofs.Number.Display

/-!
# How many digits a double needs

Seventeen digits are enough. The key facts: `Binary64.nearestRank_of_close` (what is as close to a magnitude as its
first seventeen digits is rounded to its rank) and `Decimal.digits_shortest_le` (so a double is written with seventeen
digits at most); `Decimal.value_shortest_le` and `Decimal.lead_shortest_bounds` bound what is written.
-/

namespace FieldRules

namespace Binary64

/-- What is as close to a magnitude as its first seventeen digits is rounded to its rank. -/
theorem nearestRank_of_close {k num den : Nat} (hden : 0 < den) (h0 : k ≠ 0)
    (hlow : 2 * 10 ^ 16 * (units k * den - num) ≤ units k * den)
    (hhigh : 2 * 10 ^ 16 * (num - units k * den) ≤ units k * den) : nearestRank num den = k := by
  -- steps are not much smaller than magnitudes, and `2 ^ 53` is less than `10 ^ 16`
  have hstep (j : Nat) : units (j + 1) * den ≤ 2 ^ 53 * (units (j + 1) * den - units j * den) := by
    rw [← Nat.sub_mul, ← Nat.mul_assoc]
    exact Nat.mul_le_mul_right den (units_succ_le j)
  have hpos : 0 < units k * den :=
    Nat.mul_pos (lt_of_le_of_lt (Nat.zero_le _) (units_strictMono (Nat.pos_of_ne_zero h0))) hden
  apply Nat.le_antisymm
  · refine Nat.le_of_not_lt fun hlt => ?_
    have hmono := Nat.mul_lt_mul_of_pos_right (units_lt_succ k) hden
    have hgap := hstep k
    rw [lt_nearestRank_iff hden, Nat.add_mul] at hlt
    omega
  · obtain ⟨j, rfl⟩ := Nat.exists_eq_add_one_of_ne_zero h0
    have hgap := hstep j
    refine Nat.succ_le_of_lt ((lt_nearestRank_iff hden).2 (.inl ?_))
    rw [Nat.add_mul]
    omega

private theorem rankOf_decimal_steps (n : Nat) {p : Nat} {e : ℤ} (hp : stepsOfOne = Nat.pow 2 p) (he : e = -p) :
    rankOf (n * 10 ^ e) = nearestRank n (Nat.pow 5 p) := by
  have hvalue : (n * 10 ^ e : ℚ) = (n : ℚ) / ((10 ^ p : Nat) : ℚ) := by
    rw [he, zpow_neg, zpow_natCast, Nat.cast_pow, Nat.cast_ofNat, div_eq_mul_inv]
  have hten : 10 ^ p = 2 ^ p * 5 ^ p := by rw [← Nat.mul_pow]
  rw [hvalue, rankOf_div (Nat.pow_pos (by decide))]
  refine nearestRank_congr (Nat.pow_pos (by decide)) (Nat.pow_pos (by decide)) ?_
  rw [hp, Nat.pow_eq, Nat.pow_eq, hten, Nat.mul_assoc]

end Binary64

namespace Decimal

open Binary64

/-! ### Seventeen digits -/

private theorem digits_trim_le (d : Decimal) : (trim d).digits ≤ d.digits := by
  induction d using trim.induct with
  | case1 d h ih =>
    unfold trim
    rw [dif_pos h]
    exact le_trans ih (Nat.div_le_self ..)
  | case2 d h =>
    unfold trim
    rw [dif_neg h]

/-- A rank is written out in full in decimal steps, of which each is a fraction of a binary one. -/
private theorem exists_exact_eq (k : Nat) :
    ∃ den, 0 < den ∧ (exact k).digits = units k * den ∧
      ∀ n : Nat, rankOf (n * 10 ^ (exact k).exponent) = nearestRank n den := by
  have hsteps : stepsOfOne = Nat.pow 2 1074 := by decide +kernel
  refine ⟨Nat.pow 5 1074, Nat.pow_pos (by decide), rfl, fun n => ?_⟩
  exact rankOf_decimal_steps (p := 1074) n hsteps (by simp [exact])

/-- One of the two neighbours with seventeen digits or more reads back. -/
private theorem exists_reads {k : Nat} (h0 : k ≠ 0) {drop : Nat}
    (hdrop : 10 ^ drop * 10 ^ 16 ≤ (exact k).digits ∨ drop = 0) :
    ∃ n, (n = (exact k).digits / 10 ^ drop ∨ n = (exact k).digits / 10 ^ drop + 1) ∧
      ofDecimal false ⟨n, (exact k).exponent + drop⟩ = ofRank false k := by
  obtain ⟨den, hpos, hdigits, hrank⟩ := exists_exact_eq k
  have hread {n : Nat} (hlow : 2 * 10 ^ 16 * ((exact k).digits - n * 10 ^ drop) ≤ (exact k).digits)
      (hhigh : 2 * 10 ^ 16 * (n * 10 ^ drop - (exact k).digits) ≤ (exact k).digits) :
      ofDecimal false ⟨n, (exact k).exponent + drop⟩ = ofRank false k := by
    have hvalue : (Decimal.mk n ((exact k).exponent + drop)).value =
        (n * 10 ^ drop : Nat) * 10 ^ (exact k).exponent := by
      rw [value, zpow_add₀ (by norm_num), zpow_natCast]
      push_cast
      ring
    rw [hdigits] at hlow hhigh
    rw [ofDecimal_eq_ofRank, hvalue, hrank, nearestRank_of_close hpos h0 hlow hhigh]
  generalize (exact k).digits = full at *
  have hsplit := Nat.div_add_mod' full (10 ^ drop)
  have hlt := Nat.mod_lt full (Nat.pow_pos (n := drop) (show 0 < 10 by decide))
  rcases hdrop with hdrop | rfl
  · -- the nearer neighbour
    generalize full / 10 ^ drop = low at *
    generalize full % 10 ^ drop = rest at *
    have hnext := Nat.add_one_mul low (10 ^ drop)
    by_cases hrest : 2 * rest ≤ 10 ^ drop
    · exact ⟨low, .inl rfl, hread (by omega) (by omega)⟩
    · exact ⟨low + 1, .inr rfl, hread (by omega) (by omega)⟩
  · exact ⟨full / 10 ^ 0, .inl rfl, hread (by simp) (by simp)⟩

private theorem withoutDigits?_isSome {tie : TieRule} {k : Nat} {full : Decimal} {drop n : Nat}
    (hn : n = full.digits / 10 ^ drop ∨ n = full.digits / 10 ^ drop + 1)
    (hreads : ofDecimal false ⟨n, full.exponent + drop⟩ = ofRank false k) :
    (withoutDigits? tie k full drop).isSome := by
  unfold withoutDigits?
  rw [Option.isSome_map]
  split
  · split
    · rfl
    · split
      · rfl
      · cases tie <;> rfl
  · rfl
  · rename_i hbelow
    rcases hn with rfl | rfl
    · exact absurd hreads (by simpa using hbelow)
    · rw [Option.isSome_iff_exists]
      exact ⟨_, if_pos hreads⟩

private theorem digits_exact_ne_zero {k : Nat} (h0 : k ≠ 0) : (exact k).digits ≠ 0 := by
  obtain ⟨den, hpos, hdigits, -⟩ := exists_exact_eq k
  have hunits : 0 < units k := lt_of_le_of_lt (Nat.zero_le _) (units_strictMono (Nat.pos_of_ne_zero h0))
  rw [hdigits]
  exact (Nat.mul_pos hunits hpos).ne'

/-- A double is written with seventeen digits at most. -/
theorem digits_shortest_le (tie : TieRule) (k : Nat) : (shortest tie k).digits ≤ 10 ^ 17 := by
  unfold shortest
  split
  · exact Nat.zero_le _
  · rename_i h0
    obtain ⟨count, hcount⟩ : ∃ count, width (exact k).digits = count := ⟨_, rfl⟩
    have hsome : ((List.range 17).findSome? fun i => withoutDigits? tie k (exact k) (count - (i + 1))).isSome := by
      rw [List.findSome?_isSome_iff]
      have hdrop : 10 ^ (count - (16 + 1)) * 10 ^ 16 ≤ (exact k).digits ∨ count - (16 + 1) = 0 := by
        by_cases hfew : count ≤ 17
        · exact .inr (by omega)
        · have hpow : count - (16 + 1) + 16 = count - 1 := by omega
          rw [← Nat.pow_add, hpow]
          have hwidth : (Nat.toDigits 10 (exact k).digits).length = count - 1 + 1 := by
            rw [← width, hcount]
            omega
          exact .inl (pow_length_toDigits_le (digits_exact_ne_zero h0) hwidth)
      obtain ⟨n, hn, hreads⟩ := exists_reads h0 hdrop
      exact ⟨16, by simp, withoutDigits?_isSome hn hreads⟩
    obtain ⟨d, hd⟩ := Option.isSome_iff_exists.1 hsome
    simp only [hcount, hd, Option.getD_some]
    obtain ⟨i, hi, hfound⟩ := List.exists_of_findSome?_eq_some hd
    obtain ⟨n, hn, -, rfl⟩ := exists_of_withoutDigits? hfound
    have hlt : i < 17 := List.mem_range.1 hi
    have hfull : (exact k).digits < 10 ^ count := by
      rw [← hcount]
      exact lt_pow_length_toDigits _
    have hlow : (exact k).digits / 10 ^ (count - (i + 1)) < 10 ^ 17 := by
      rw [Nat.div_lt_iff_lt_mul (Nat.pow_pos (by decide)), ← Nat.pow_add]
      exact lt_of_lt_of_le hfull (Nat.pow_le_pow_right (by decide) (by omega))
    exact le_trans (digits_trim_le _) (by dsimp only; omega)

/-! ### How large and how small what is written can be -/

/-- The greatest numeral that a double is written as. -/
def greatest : Decimal := ⟨17976931348623157, 292⟩

theorem ten_pow_le_greatest : (10 ^ 17 : ℚ) ≤ greatest.value :=
  calc (10 ^ 17 : ℚ) ≤ 17976931348623157 * 10 ^ (1 : ℤ) := by norm_num
    _ ≤ 17976931348623157 * 10 ^ (292 : ℤ) := by gcongr <;> norm_num

theorem value_shortest_le {k : Nat} (hk : k < top) : (shortest .even k).value ≤ greatest.value := by
  have hgreatest : shortest .even (top - 1) = greatest := by decide +kernel
  by_cases hlast : k = top - 1
  · rw [hlast, hgreatest]
  · by_contra hlt
    have hmono := rankOf_mono (not_le.1 hlt).le
    rw [rankOf_shortest .even hk, ← hgreatest, rankOf_shortest .even (by decide)] at hmono
    omega

/-- The leading digit stands from place -400 to place 308. -/
theorem lead_shortest_bounds {k : Nat} (hk : k < top) (h0 : k ≠ 0) :
    -400 ≤ (shortest .even k).lead ∧ (shortest .even k).lead ≤ 308 := by
  obtain ⟨hlow, hhigh⟩ := value_bounds (digits_shortest_ne_zero .even hk h0)
  constructor
  · by_contra hlt
    have hsmall : (shortest .even k).value ≤ 1 / 2 ^ 1076 :=
      calc (shortest .even k).value ≤ 10 ^ ((shortest .even k).lead + 1) := hhigh.le
        _ ≤ 10 ^ (-((400 : Nat) : ℤ)) := zpow_le_zpow_right₀ (by norm_num) (by omega)
        _ = 1 / 10 ^ 400 := by rw [zpow_neg, zpow_natCast, one_div]
        _ ≤ 1 / 2 ^ 1076 := one_div_le_one_div_of_le (by positivity) (two_pow_le_ten_pow (by norm_num))
    have hzero := rankOf_eq_zero hsmall
    rw [rankOf_shortest .even hk] at hzero
    exact h0 hzero
  · by_contra hlt
    have hlarge : greatest.value < 10 ^ (shortest .even k).lead :=
      calc greatest.value < 10 ^ (17 : ℤ) * 10 ^ (292 : ℤ) := by
            simp only [greatest, value]
            gcongr
            norm_num
        _ = 10 ^ (309 : ℤ) := by rw [← zpow_add₀ (by norm_num)]; norm_num
        _ ≤ 10 ^ (shortest .even k).lead := zpow_le_zpow_right₀ (by norm_num) (by omega)
    exact absurd (value_shortest_le hk) (not_le.2 (lt_of_lt_of_le hlarge hlow))

end Decimal

end FieldRules
