import FieldRules.Number.Style
import FieldRules.Proofs.Number.Literal

/-!
# Numbers in messages

Numbers as they stand in messages and canonical forms. The key facts: a number is written as a plain literal exactly
when it is plain, that is zero or of a magnitude from `1e-6` up to but not including `1e21` (`ofLiteral?_render` and
`ofLiteral?_render_of_not_isPlain`); the literal reads back as the number, without the sign of a zero; and no number
is written with a character that divides rules or parameters (`NumberStyle.all_render`).
-/

namespace FieldRules

open Binary64

/-! ### The place of the leading digit -/

/-- The exponent of the leading digit. -/
def Decimal.lead (d : Decimal) : ℤ := d.exponent + (Nat.toDigits 10 d.digits).length - 1

namespace Decimal

/-- A decimal lies between the powers of ten at its leading digit and above it. -/
theorem value_bounds {d : Decimal} (h : d.digits ≠ 0) :
    (10 : ℚ) ^ d.lead ≤ d.value ∧ d.value < 10 ^ (d.lead + 1) := by
  obtain ⟨len, hlen⟩ : ∃ len, (Nat.toDigits 10 d.digits).length = len + 1 :=
    Nat.exists_eq_succ_of_ne_zero (Nat.pos_iff_ne_zero.1 Nat.length_toDigits_pos)
  have hlead : d.lead = len + d.exponent := by
    unfold lead
    rw [hlen]
    push_cast
    omega
  have hlow : (10 : ℚ) ^ len ≤ d.digits := by exact_mod_cast pow_length_toDigits_le h hlen
  have hhigh : (d.digits : ℚ) < 10 ^ (len + 1) := by exact_mod_cast hlen ▸ lt_pow_length_toDigits d.digits
  have hpos : (0 : ℚ) < 10 ^ d.exponent := by positivity
  constructor
  · rw [hlead, zpow_add₀ (by norm_num), zpow_natCast]
    exact mul_le_mul_of_nonneg_right hlow hpos.le
  · rw [hlead, add_right_comm, zpow_add₀ (by norm_num), ← Nat.cast_succ, zpow_natCast]
    exact mul_lt_mul_of_pos_right hhigh hpos

/-- The leading digit of the shortest numeral of a rank reaches a place exactly when the rank reaches the one of the
power of ten at that place, provided that power is written as itself. -/
private theorem le_lead_shortest_iff (tie : TieRule) {k : Nat} (hk : k < top) (h0 : k ≠ 0) {e : ℤ} {r : Nat}
    (hr : rankOf (10 ^ e) = r) (hpow : shortest tie r = ⟨1, e⟩) : e ≤ (shortest tie k).lead ↔ r ≤ k := by
  obtain ⟨hlow, hhigh⟩ := value_bounds (digits_shortest_ne_zero tie hk h0)
  have hback := rankOf_shortest tie hk
  constructor
  · intro h
    rw [← hr, ← hback]
    exact rankOf_mono (le_trans (zpow_le_zpow_right₀ (by norm_num) h) hlow)
  · intro h
    by_contra hlt
    have hle : k ≤ r := by
      rw [← hr, ← hback]
      exact rankOf_mono (le_trans hhigh.le (zpow_le_zpow_right₀ (by norm_num) (by omega)))
    obtain rfl : k = r := Nat.le_antisymm hle h
    rw [hpow] at hlt
    exact hlt (by simp [lead, Nat.toDigits_of_lt_base])

end Decimal

/-! ### Positional text -/

namespace NumberStyle

/-- Positional text is the text of a literal of the same value. -/
private theorem exists_literal_positional (negative : Bool) (d : Decimal) :
    ∃ n : Numeral, n.IsLiteral ∧ n.negative = negative ∧ n.decimal.value = d.value ∧
      n.literal = (if negative then ['-'] else []) ++ positional false (Nat.toDigits 10 d.digits) d.lead := by
  obtain ⟨sign, hsign⟩ : ∃ sign, (if negative then ['-'] else []) = sign := ⟨_, rfl⟩
  obtain ⟨len, hlen⟩ : ∃ len, (Nat.toDigits 10 d.digits).length = len := ⟨_, rfl⟩
  have hlead : d.lead = d.exponent + len - 1 := by rw [Decimal.lead, hlen]
  have hne : Nat.toDigits 10 d.digits ≠ [] := Nat.toDigits_ne_nil
  have hdigits : ∀ c ∈ Nat.toDigits 10 d.digits, c.isDigit := fun c hc => isDigit_of_mem_toDigits hc
  have hnat := natOfDigits_toDigits d.digits
  have hzero (m : Nat) : ∀ c ∈ List.replicate m '0', c.isDigit := by
    intro c hc
    rw [List.eq_of_mem_replicate hc]
    rfl
  rw [hsign]
  unfold positional
  generalize Nat.toDigits 10 d.digits = ds at *
  split
  · -- all digits stand behind the point, after zeros
    rename_i hneg
    obtain ⟨m, hm⟩ : ∃ m, (-d.lead).toNat - 1 = m := ⟨_, rfl⟩
    have hexp : (0 : ℤ) - ((m + len : Nat) : ℤ) = d.exponent := by omega
    refine ⟨⟨negative, ['0'], List.replicate m '0' ++ ds, 0⟩, ⟨hzero 1, ?_, rfl, by simp⟩, rfl, ?_, ?_⟩
    · intro c hc
      exact (List.mem_append.1 hc).elim (hzero m c) (hdigits c)
    · simp only [Numeral.decimal, Decimal.value, List.singleton_append, natOfDigits_zero_cons,
        natOfDigits_zeros_append, hnat, List.length_append, List.length_replicate, hlen, hexp]
    · simp [Numeral.literal, Numeral.tail, hsign, hm, hne]
  · rename_i hpos
    obtain ⟨whole, hwhole⟩ : ∃ whole, d.lead.toNat + 1 = whole := ⟨_, rfl⟩
    simp only [hwhole]
    split
    · -- all digits stand before the point, with zeros after them
      rename_i hle
      obtain ⟨m, hm⟩ : ∃ m, whole - ds.length = m := ⟨_, rfl⟩
      have hexp : d.exponent = (m : ℤ) := by omega
      refine ⟨⟨negative, ds ++ List.replicate m '0', [], 0⟩, ⟨?_, by simp, rfl, by simp [hne]⟩, rfl, ?_, ?_⟩
      · intro c hc
        exact (List.mem_append.1 hc).elim (hdigits c) (hzero m c)
      · simp only [Numeral.decimal, Decimal.value, List.append_nil, natOfDigits_append_zeros, hnat, hexp]
        simp [mul_comm]
      · simp [Numeral.literal, Numeral.tail, hsign, hm]
    · rename_i hgt
      have hexp : (0 : ℤ) - ((ds.drop whole).length : ℤ) = d.exponent := by
        rw [List.length_drop]
        omega
      have hdrop : ds.drop whole ≠ [] := by
        rw [ne_eq, List.drop_eq_nil_iff]
        exact hgt
      refine ⟨⟨negative, ds.take whole, ds.drop whole, 0⟩, ⟨?_, ?_, rfl, by simp [hne]⟩, rfl, ?_, ?_⟩
      · exact fun c hc => hdigits c (List.mem_of_mem_take hc)
      · exact fun c hc => hdigits c (List.mem_of_mem_drop hc)
      · simp only [Numeral.decimal, Decimal.value, List.take_append_drop, hnat, hexp]
      · simp [Numeral.literal, Numeral.tail, hsign, hdrop]

end NumberStyle

/-! ### Plain numbers -/

namespace Binary64

/-- The number without its sign. -/
def abs : Binary64 → Binary64
  | nan => nan
  | infinity _ => infinity false
  | finite _ rank => finite false rank

/-- Finite, and zero or of a magnitude from `1e-6` up to but not including `1e21`. -/
def IsPlain (x : Binary64) : Prop :=
  x.isFinite ∧ (x.isZero ∨ (¬ x.abs.less (ofDecimal false ⟨1, -6⟩) ∧ x.abs.less (ofDecimal false ⟨1, 21⟩)))

instance : DecidablePred IsPlain := fun x =>
  inferInstanceAs (Decidable (x.isFinite ∧ (x.isZero ∨
    (¬ x.abs.less (ofDecimal false ⟨1, -6⟩) ∧ x.abs.less (ofDecimal false ⟨1, 21⟩)))))

/-- The ranks of `1e-6` and `1e21`. -/
private def lowRank : Nat := 0x3eb0c6f7a0b5ed8d
private def highRank : Nat := 0x444b1ae4d6e2ef50

private theorem rankOf_low : rankOf (10 ^ (-6 : ℤ)) = lowRank := by
  have h : ofDecimal false ⟨1, -6⟩ = ofRank false lowRank := by decide +kernel
  rw [ofDecimal_eq_ofRank] at h
  simpa [Decimal.value] using ofRank_inj (by decide) h

private theorem rankOf_high : rankOf (10 ^ (21 : ℤ)) = highRank := by
  have h : ofDecimal false ⟨1, 21⟩ = ofRank false highRank := by decide +kernel
  rw [ofDecimal_eq_ofRank] at h
  simpa [Decimal.value] using ofRank_inj (by decide) h

private theorem less_ofRank {rank : Fin top} {k : Nat} (hk : k < top) :
    (finite false rank).less (ofRank false k) = decide (rank.val < k) := by
  unfold ofRank
  rw [dif_pos hk]
  simp [less, place]

theorem isPlain_finite_iff {negative : Bool} {rank : Fin top} :
    (finite negative rank).IsPlain ↔ rank.val = 0 ∨ (lowRank ≤ rank.val ∧ rank.val < highRank) := by
  have hlow : ofDecimal false ⟨1, -6⟩ = ofRank false lowRank := by decide +kernel
  have hhigh : ofDecimal false ⟨1, 21⟩ = ofRank false highRank := by decide +kernel
  unfold IsPlain
  rw [hlow, hhigh]
  simp only [abs, less_ofRank (show lowRank < top by decide), less_ofRank (show highRank < top by decide)]
  simp [isFinite, isZero]

/-- The plain ranks are those whose shortest numeral has its leading digit among the positional places. -/
private theorem isPlain_iff_lead {negative : Bool} {rank : Fin top} (h0 : rank.val ≠ 0) :
    (finite negative rank).IsPlain ↔
      -6 ≤ (Decimal.shortest .up rank).lead ∧ (Decimal.shortest .up rank).lead ≤ 20 := by
  have hlow := Decimal.le_lead_shortest_iff .up rank.isLt h0 rankOf_low (by decide +kernel)
  have hhigh := Decimal.le_lead_shortest_iff .up rank.isLt h0 rankOf_high (by decide +kernel)
  rw [isPlain_finite_iff]
  omega

end Binary64

/-! ### The text of a number -/

namespace NumberStyle

private theorem toList_render_finite (negative : Bool) (rank : Fin top) :
    (display.render (finite negative rank)).toList =
      (if negative && rank.val != 0 then ['-'] else []) ++ display.magnitude (Decimal.shortest .up rank) := by
  simp [render, display]

private theorem magnitude_display (d : Decimal) :
    display.magnitude d = if -6 ≤ d.lead ∧ d.lead ≤ 20 then positional false (Nat.toDigits 10 d.digits) d.lead
      else scientific true (Nat.toDigits 10 d.digits) d.lead := rfl

/-- The plain numbers are those that are written positionally. -/
private theorem isPlain_iff_positional {negative : Bool} {rank : Fin top} :
    (finite negative rank).IsPlain ↔
      -6 ≤ (Decimal.shortest .up rank).lead ∧ (Decimal.shortest .up rank).lead ≤ 20 := by
  by_cases h0 : rank.val = 0
  · have hzero : (Decimal.shortest .up 0).lead = 0 := by decide +kernel
    rw [isPlain_finite_iff, h0, hzero]
    simp
  · exact isPlain_iff_lead h0

/-- A plain number is written as a literal that reads back as the number, without the sign of a zero. -/
theorem ofLiteral?_render {x : Binary64} (h : x.IsPlain) :
    ∃ n, Numeral.ofLiteral? (display.render x).toList = some n ∧
      n.toBinary64 = if x.isZero then zero false else x := by
  cases x with
  | nan => exact absurd h.1 (by decide)
  | infinity negative => exact absurd h.1 (by simp [isFinite])
  | finite negative rank =>
    obtain ⟨n, hlit, hneg, hvalue, htext⟩ :=
      exists_literal_positional (negative && rank.val != 0) (Decimal.shortest .up rank)
    refine ⟨n, ?_, ?_⟩
    · rw [toList_render_finite, magnitude_display, if_pos (isPlain_iff_positional.1 h), ← htext]
      exact Numeral.ofLiteral?_eq_some_iff.2 ⟨hlit, rfl⟩
    · rw [Numeral.toBinary64_eq, hneg, ofDecimal_eq_ofRank, hvalue, Decimal.rankOf_shortest .up rank.isLt]
      by_cases h0 : rank.val = 0
      · simp [isZero, h0, zero]
      · simp [isZero, h0, ofRank]

/-- A finite number that is not plain is written with an exponent. -/
theorem toList_render_of_not_isPlain {negative : Bool} {rank : Fin top} (h : ¬ (finite negative rank).IsPlain) :
    (display.render (finite negative rank)).toList =
      (if negative then ['-'] else []) ++ scientific true (Nat.toDigits 10 (Decimal.shortest .up rank).digits)
        (Decimal.shortest .up rank).lead := by
  have h0 : rank.val ≠ 0 := fun h0 => h (isPlain_finite_iff.2 (.inl h0))
  have hsign : (negative && rank.val != 0) = negative := by simp [h0]
  rw [toList_render_finite, magnitude_display, if_neg (mt isPlain_iff_positional.2 h), hsign]

/-- A number that is not plain is written with a letter. -/
theorem exists_letter_render {x : Binary64} (h : ¬ x.IsPlain) :
    ∃ c ∈ (display.render x).toList, c = 'N' ∨ c = 'I' ∨ c = 'e' := by
  cases x with
  | nan => exact ⟨'N', by decide, by decide⟩
  | infinity negative => exact ⟨'I', by cases negative <;> decide, by decide⟩
  | finite negative rank =>
    refine ⟨'e', ?_, by decide⟩
    rw [toList_render_of_not_isPlain h]
    simp [scientific]

/-- A number that is not plain is not written as a literal. -/
theorem ofLiteral?_render_of_not_isPlain {x : Binary64} (h : ¬ x.IsPlain) :
    Numeral.ofLiteral? (display.render x).toList = none := by
  obtain ⟨c, hc, hletter⟩ := exists_letter_render h
  rw [← Option.not_isSome_iff_eq_none, Numeral.isSome_ofLiteral?_iff]
  intro hnum
  have hmem := hnum.mem hc
  rcases hletter with rfl | rfl | rfl <;> exact absurd hmem (by decide)

/-- The characters that numbers are written with. -/
def isNumberChar (c : Char) : Bool := c.isAlphanum || c == '-' || c == '+' || c == '.'

theorem toNat_lt_of_isNumberChar {c : Char} (h : isNumberChar c) : c.toNat < 128 := by
  have halphanum : c.isAlphanum =
      (decide ('A' ≤ c ∧ c ≤ 'Z') || (decide ('a' ≤ c) && decide (c ≤ 'z')) || (decide ('0' ≤ c) && decide (c ≤ '9'))) :=
    rfl
  simp only [isNumberChar, halphanum, Bool.or_eq_true, Bool.and_eq_true, decide_eq_true_eq, beq_iff_eq, Char.le_def,
    UInt32.le_iff_toNat_le] at h
  rcases h with ((((h | h) | h) | rfl) | rfl) | rfl
  · exact lt_of_le_of_lt h.2 (by decide)
  · exact lt_of_le_of_lt h.2 (by decide)
  · exact lt_of_le_of_lt h.2 (by decide)
  · decide
  · decide
  · decide

private theorem all_toDigits (n : Nat) : (Nat.toDigits 10 n).all isNumberChar := by
  rw [List.all_eq_true]
  intro c hc
  simp [isNumberChar, Char.isAlphanum, isDigit_of_mem_toDigits hc]

private theorem all_scientific {digits : List Char} (h : digits.all isNumberChar) (lead : Int) :
    (scientific true digits lead).all isNumberChar := by
  have he : isNumberChar 'e' := by decide
  have hpoint : isNumberChar '.' := by decide
  have hsign : (if lead < 0 then ['-'] else ['+']).all isNumberChar := by split <;> decide
  unfold scientific
  simp only [List.all_append, List.all_cons, all_toDigits, he, if_true, hsign, Bool.and_true]
  split
  · simpa [hpoint] using h
  · exact h

/-- Numbers are written with letters, digits, signs and points. -/
theorem all_render (x : Binary64) : (display.render x).toList.all isNumberChar := by
  cases x with
  | nan => decide
  | infinity negative => cases negative <;> decide
  | finite negative rank =>
    by_cases hplain : (finite negative rank).IsPlain
    · obtain ⟨n, hn, -⟩ := ofLiteral?_render hplain
      have hnum := Numeral.isSome_ofLiteral?_iff.1 (Option.isSome_of_eq_some hn)
      rw [List.all_eq_true]
      intro c hc
      rcases hnum.mem hc with hd | rfl | rfl
      · simp [isNumberChar, Char.isAlphanum, hd]
      · decide
      · decide
    · rw [toList_render_of_not_isPlain hplain, List.all_append, all_scientific (all_toDigits _), Bool.and_true]
      split <;> decide

end NumberStyle

end FieldRules
