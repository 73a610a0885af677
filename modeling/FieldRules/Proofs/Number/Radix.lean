import FieldRules.Proofs.Number.Loose
import FieldRules.Proofs.Number.Value
import Mathlib.Data.Nat.Log

/-!
# Integers in other bases

An integer in base 16, 8 or 2 is rounded after every digit. The key facts: `Loose.foldl_takeDigit` (once the digits have
come to `2 ^ 53`, those that follow count as zeros) and `Loose.radix_reading` (when this makes a difference to rounding
the integer once, as is done with its decimal digits).
-/

namespace FieldRules

open Binary64

/-! ### Rounding large whole numbers -/

namespace Binary64

private theorem stepsOfOne_eq : stepsOfOne = 2 ^ 1074 := by
  unfold stepsOfOne
  generalize 1074 = n
  exact Nat.pow_eq ..

private theorem two_pow_eq (e : Nat) : 2 ^ (1075 + e) = 2 * (2 ^ e * stepsOfOne) := by
  have hexponent : 1075 + e = 1 + (e + 1074) := by omega
  rw [hexponent, Nat.pow_add, Nat.pow_add, ← stepsOfOne_eq, Nat.pow_one]

/-- The rank that a whole number is rounded to. -/
def wholeRank (n : Nat) : Nat := nearestRank (n * stepsOfOne) 1

theorem ofNat_eq (n : Nat) : ofNat n = ofRank false (wholeRank n) := rfl

theorem wholeRank_mono {m n : Nat} (h : m ≤ n) : wholeRank m ≤ wholeRank n :=
  nearestRank_mono Nat.one_pos Nat.one_pos (by
    rw [Nat.mul_one, Nat.mul_one]
    exact Nat.mul_le_mul_right _ h)

private theorem lt_wholeRank_iff {k n : Nat} :
    k < wholeRank n ↔ units k + units (k + 1) < 2 * (n * stepsOfOne) ∨
      (units k + units (k + 1) = 2 * (n * stepsOfOne) ∧ k % 2 = 1) := by
  rw [wholeRank, lt_nearestRank_iff Nat.one_pos, Nat.mul_one]

/-- From `2 ^ (53 + e)` on, steps are as large as `2 ^ (e + 1)`. -/
private theorem le_wholeRank {n e : Nat} (h : 2 ^ (53 + e) ≤ n) : (1075 + e + 1) * binade ≤ wholeRank n := by
  have hunits : units ((1075 + e + 1) * binade) = 2 ^ (53 + e) * stepsOfOne := by
    have hrank : (1075 + e + 1) * binade = binade + (1075 + e) * binade := by ring
    have hfirst : units binade = 2 ^ 52 := units_of_lt (by decide)
    have hshift : 52 + (1075 + e) = 53 + e + 1074 := by omega
    rw [hrank, units_add_binades (Nat.le_refl _), hfirst, ← Nat.pow_add, hshift, Nat.pow_add, ← stepsOfOne_eq]
  have hrank : wholeRank (2 ^ (53 + e)) = (1075 + e + 1) * binade := by
    rw [wholeRank, ← hunits, ← Nat.mul_one (units _)]
    exact nearestRank_units Nat.one_pos
  exact hrank ▸ wholeRank_mono h

/-- A large whole number may be multiplied by a power of two before it is rounded or after. -/
private theorem wholeRank_mul_two_pow {n : Nat} (h : 2 ^ 53 ≤ n) (shift : Nat) :
    wholeRank (n * 2 ^ shift) = wholeRank n + shift * binade := by
  have hlarge : binade < wholeRank n := lt_of_lt_of_le (by decide) (le_wholeRank (e := 0) h)
  have hnum : n * 2 ^ shift * stepsOfOne = n * stepsOfOne * 2 ^ shift := by ring
  rw [wholeRank, hnum]
  exact nearestRank_mul_two_pow Nat.one_pos hlarge shift

/-- What is less than half of a step is lost beside a magnitude. -/
private theorem nearestRank_units_add {k rest : Nat} (h : 2 * rest < units (k + 1) - units k) :
    nearestRank (units k + rest) 1 = k := by
  apply Nat.le_antisymm
  · refine Nat.le_of_not_lt fun hlt => ?_
    rw [lt_nearestRank_iff Nat.one_pos] at hlt
    omega
  · have hround : nearestRank (units k * 1) 1 = k := nearestRank_units Nat.one_pos
    calc k = nearestRank (units k * 1) 1 := hround.symm
      _ ≤ nearestRank (units k + rest) 1 := nearestRank_mono Nat.one_pos Nat.one_pos (by omega)

/-- A whole number that lies halfway between a finite double and the next one, and is rounded to the lower of them. -/
def TiesDown (n : Nat) : Prop := ∃ k < top, k % 2 = 0 ∧ (magnitude k + magnitude (k + 1)) / 2 = n

private theorem tiesDown_iff {n : Nat} :
    TiesDown n ↔ ∃ k < top, k % 2 = 0 ∧ units k + units (k + 1) = 2 * (n * stepsOfOne) := by
  have hmidpoint (k : Nat) :
      (magnitude k + magnitude (k + 1)) / 2 = n ↔ units k + units (k + 1) = 2 * (n * stepsOfOne) := by
    have hpos : (stepsOfOne : ℚ) ≠ 0 := by exact_mod_cast stepsOfOne_pos.ne'
    have hcast : (n * (stepsOfOne * 2) : ℚ) = ((2 * (n * stepsOfOne) : Nat) : ℚ) := by
      rw [Nat.cast_mul, Nat.cast_mul, Nat.cast_two]
      ring
    rw [magnitude, magnitude, ← add_div, div_div, div_eq_iff (mul_ne_zero hpos two_ne_zero), hcast, ← Nat.cast_add,
      Nat.cast_inj]
  simp only [TiesDown, hmidpoint]

/-- The midpoint of two large doubles ends in `e` zeros, so one that is not above a whole number is not above it either
when the last `e` binary digits of this number are zeros. -/
private theorem midpoint_le {k n e : Nat} (hlarge : (1075 + e + 1) * binade ≤ k)
    (h : units k + units (k + 1) ≤ 2 * (n * stepsOfOne)) :
    units k + units (k + 1) ≤ 2 * (n / 2 ^ e * 2 ^ e * stepsOfOne) := by
  obtain ⟨t, ht⟩ : 2 ^ (1075 + e) ∣ units k + units (k + 1) :=
    Nat.dvd_add (two_pow_dvd_units hlarge) (two_pow_dvd_units (le_trans hlarge (Nat.le_succ k)))
  rw [ht] at h ⊢
  have hbelow : 2 ^ (1075 + e) * t < 2 ^ (1075 + e) * (n / 2 ^ e + 1) :=
    calc 2 ^ (1075 + e) * t ≤ 2 * (n * stepsOfOne) := h
      _ < 2 * (2 ^ e * (n / 2 ^ e + 1) * stepsOfOne) :=
          Nat.mul_lt_mul_of_pos_left
            (Nat.mul_lt_mul_of_pos_right (Nat.lt_mul_div_succ n (Nat.two_pow_pos e)) stepsOfOne_pos) Nat.two_pos
      _ = 2 ^ (1075 + e) * (n / 2 ^ e + 1) := by
          rw [two_pow_eq]
          ring
  have hle : t ≤ n / 2 ^ e := Nat.le_of_lt_succ (Nat.lt_of_mul_lt_mul_left hbelow)
  calc 2 ^ (1075 + e) * t ≤ 2 ^ (1075 + e) * (n / 2 ^ e) := Nat.mul_le_mul_left _ hle
    _ = 2 * (n / 2 ^ e * 2 ^ e * stepsOfOne) := by
        rw [two_pow_eq]
        ring

/-- A number with zeros for its last `e` binary digits is rounded like the number itself, unless a half is rounded
down. -/
private theorem ofNat_eq_iff {m n e : Nat} (hm : m = n / 2 ^ e * 2 ^ e) (hlarge : 2 ^ (53 + e) ≤ m) :
    ofNat m = ofNat n ↔ m = n ∨ ¬ TiesDown m := by
  have hle : m ≤ n := hm ▸ Nat.div_mul_le_self n (2 ^ e)
  rw [ofNat_eq, ofNat_eq, tiesDown_iff]
  constructor
  · intro heq
    by_contra hnot
    obtain ⟨hne, k, htop, heven, htie⟩ : m ≠ n ∧ ∃ k < top, k % 2 = 0 ∧
        units k + units (k + 1) = 2 * (m * stepsOfOne) := by simpa using hnot
    have hlt : m * stepsOfOne < n * stepsOfOne := Nat.mul_lt_mul_of_pos_right (by omega) stepsOfOne_pos
    have hbelow : ¬ k < wholeRank m := by
      rw [lt_wholeRank_iff]
      omega
    have habove : k < wholeRank n := lt_wholeRank_iff.2 (.inl (by omega))
    have hsame := ofRank_inj (by omega) heq.symm
    omega
  · rintro (rfl | hnot)
    · rfl
    have hmono := wholeRank_mono hle
    have hfar := le_wholeRank hlarge
    generalize hk : wholeRank m = k at *
    by_cases htop : k < top
    · -- the only midpoint between the two numbers can be the lower of them itself
      have hsame : wholeRank n = k := by
        refine le_antisymm (le_of_not_gt fun hlt => hnot ⟨k, htop, ?_⟩) hmono
        have hbelow : ¬ k < wholeRank m := by omega
        rw [lt_wholeRank_iff] at hlt hbelow
        have hmidpoint := midpoint_le hfar (show units k + units (k + 1) ≤ 2 * (n * stepsOfOne) by omega)
        rw [← hm] at hmidpoint
        omega
      rw [hsame]
    · rw [ofRank_of_top_le (not_lt.1 htop), ofRank_of_top_le (le_trans (not_lt.1 htop) hmono)]

end Binary64

/-! ### Taking digits in -/

namespace Loose

/-- How many digits of a number stand behind the first with which it has come to `2 ^ 53`. -/
def dropped (base n : Nat) : Nat := Nat.log base (n / 2 ^ 53)

/-- The number with zeros for these digits. -/
def kept (base n : Nat) : Nat := n / base ^ dropped base n * base ^ dropped base n

private theorem takeDigit_ofRank {k : Nat} (h : k < top) (base digit : Nat) :
    takeDigit base (ofRank false k) digit = ofRank false (nearestRank (units k * base + digit * stepsOfOne) 1) := by
  rw [ofRank, dif_pos h]
  rfl

private theorem takeDigit_infinity {k : Nat} (h : top ≤ k) (base digit : Nat) :
    takeDigit base (ofRank false k) digit = ofRank false k := by
  rw [ofRank_of_top_le h]
  rfl

/-- A number that is a double takes a digit in with one rounding. -/
private theorem takeDigit_of_lt {n : Nat} (h : n < 2 ^ 53) (base digit : Nat) :
    takeDigit base (ofNat n) digit = ofNat (base * n + digit) := by
  obtain ⟨k, htop, hk⟩ := exists_units_of_lt h
  have hsum : units k * base + digit * stepsOfOne = (base * n + digit) * stepsOfOne := by
    rw [hk]
    ring
  rw [ofNat_of_units hk, takeDigit_ofRank htop, hsum]
  rfl

/-- A larger one loses the digit. -/
private theorem takeDigit_of_le {n digit shift : Nat} (h : 2 ^ 53 ≤ n) (hdigit : digit < 2 ^ shift) :
    takeDigit (2 ^ shift) (ofNat n) digit = ofNat (n * 2 ^ shift) := by
  rw [ofNat_eq, ofNat_eq, wholeRank_mul_two_pow h]
  have hlarge := le_wholeRank (e := 0) h
  generalize wholeRank n = k at *
  by_cases htop : k < top
  · have hfirst : binade ≤ k := le_trans (by decide) hlarge
    -- the digit is less than half of a step of the product
    have hrest : 2 * (digit * stepsOfOne) < units (k + shift * binade + 1) - units (k + shift * binade) := by
      have hrank : (1075 + shift + 1) * binade ≤ k + shift * binade := by
        have hshifted := Nat.add_le_add_right hlarge (shift * binade)
        rwa [← Nat.add_mul, Nat.add_zero, Nat.add_right_comm] at hshifted
      have hgap := units_add_two_pow_le hrank
      rw [two_pow_eq] at hgap
      have hlost : digit * stepsOfOne < 2 ^ shift * stepsOfOne := Nat.mul_lt_mul_of_pos_right hdigit stepsOfOne_pos
      omega
    rw [takeDigit_ofRank htop, ← units_add_binades hfirst, nearestRank_units_add hrest]
  · have hbeyond : top ≤ k + shift * binade := by omega
    rw [takeDigit_infinity (not_lt.1 htop), ofRank_of_top_le (not_lt.1 htop), ofRank_of_top_le hbeyond]

private theorem kept_of_lt {base n : Nat} (h : n < 2 ^ 53 * base) : kept base n = n := by
  have hdropped : dropped base n = 0 := Nat.log_of_lt (Nat.div_lt_of_lt_mul h)
  rw [kept, hdropped, Nat.pow_zero, Nat.div_one, Nat.mul_one]

/-- Once a number has come to `2 ^ 53`, a further digit counts as a zero. -/
private theorem kept_mul_add {base n digit : Nat} (h : 2 ^ 53 ≤ n) (hdigit : digit < base) (hbase : 1 < base) :
    kept base (base * n + digit) = kept base n * base := by
  have hdiv : (base * n + digit) / base = n := by
    rw [Nat.mul_add_div (by omega), Nat.div_eq_of_lt hdigit, Nat.add_zero]
  have hdropped : dropped base (base * n + digit) = dropped base n + 1 := by
    have hle : base ≤ (base * n + digit) / 2 ^ 53 := by
      rw [Nat.le_div_iff_mul_le (by decide)]
      exact le_trans (Nat.mul_le_mul_left base h) (Nat.le_add_right _ _)
    rw [dropped, Nat.log_of_one_lt_of_le hbase hle, Nat.div_right_comm, hdiv]
    rfl
  rw [kept, hdropped, Nat.pow_succ', ← Nat.div_div_eq_div_mul, hdiv, Nat.mul_comm base, ← Nat.mul_assoc]
  rfl

private theorem two_pow_le_kept {base n : Nat} (hbase : 0 < base) (h : 2 ^ 53 ≤ n) :
    2 ^ 53 * base ^ dropped base n ≤ kept base n := by
  have hne : n / 2 ^ 53 ≠ 0 := (Nat.div_pos h (by decide)).ne'
  have hpow : base ^ dropped base n ≤ n / 2 ^ 53 := Nat.pow_log_le_self base hne
  refine Nat.mul_le_mul_right _ ?_
  rw [Nat.le_div_iff_mul_le (Nat.pow_pos hbase), Nat.mul_comm]
  exact (Nat.le_div_iff_mul_le (by decide)).1 hpow

private theorem ofDigitValues_concat (base : Nat) (digits : List Nat) (digit : Nat) :
    ofDigitValues base (digits ++ [digit]) = base * ofDigitValues base digits + digit := List.foldl_concat ..

/-- Digits are taken in one by one. -/
theorem foldl_takeDigit {shift : Nat} (hshift : shift ≠ 0) {digits : List Nat} (h : ∀ d ∈ digits, d < 2 ^ shift) :
    digits.foldl (takeDigit (2 ^ shift)) (zero false) =
      ofNat (kept (2 ^ shift) (ofDigitValues (2 ^ shift) digits)) := by
  have hbase : 1 < 2 ^ shift := Nat.one_lt_two_pow hshift
  induction digits using List.reverseRecOn with
  | nil =>
    have hnone : kept (2 ^ shift) (ofDigitValues (2 ^ shift) []) = 0 := Nat.eq_zero_of_le_zero (Nat.div_mul_le_self ..)
    rw [hnone, ofNat_zero]
    rfl
  | append_singleton front digit ih =>
    obtain ⟨hfront, hdigit⟩ := List.forall_mem_append.1 h
    replace hdigit := hdigit digit List.mem_cons_self
    rw [List.foldl_concat, ih hfront, ofDigitValues_concat]
    generalize ofDigitValues (2 ^ shift) front = n
    by_cases hn : n < 2 ^ 53
    · have hsum : 2 ^ shift * n + digit < 2 ^ 53 * 2 ^ shift :=
        calc 2 ^ shift * n + digit < 2 ^ shift * n + 2 ^ shift := Nat.add_lt_add_left hdigit _
          _ = (n + 1) * 2 ^ shift := by ring
          _ ≤ 2 ^ 53 * 2 ^ shift := Nat.mul_le_mul_right _ hn
      have hexact : n < 2 ^ 53 * 2 ^ shift := lt_of_lt_of_le hn (Nat.le_mul_of_pos_right _ (by omega))
      rw [kept_of_lt hsum, kept_of_lt hexact, takeDigit_of_lt hn]
    · have hlarge : 2 ^ 53 ≤ kept (2 ^ shift) n :=
        le_trans (Nat.le_mul_of_pos_right _ (Nat.pow_pos (by omega))) (two_pow_le_kept (by omega) (not_lt.1 hn))
      rw [takeDigit_of_le hlarge hdigit, kept_mul_add (not_lt.1 hn) hdigit hbase]

/-! ### Spellings -/

/-- The digits of a number in a base, with any zeros before them and letters of either case. -/
def Spells (base n : Nat) (cs : List Char) : Prop :=
  ∃ zeros, cs.map Char.toLower = List.replicate zeros '0' ++ Nat.toDigits base n

/-- The letters that mark integers in other bases. -/
def markers : List (Char × Nat) := [('x', 16), ('X', 16), ('o', 8), ('O', 8), ('b', 2), ('B', 2)]

private theorem digitIn?_eq_some_iff {base : Nat} (hbase : base ≤ 16) {c : Char} {d : Nat} :
    digitIn? base c = some d ↔ digitIn? 16 c = some d ∧ d < base := by
  simp only [digitIn?, Option.filter_eq_some_iff, decide_eq_true_eq]
  constructor
  · exact fun h => ⟨⟨h.1, by omega⟩, h.2⟩
  · exact fun h => ⟨h.1.1, h.2⟩

/-- A character that is the digit of a value, but for its case. -/
private theorem digit_of_toLower {c : Char} {d : Nat} (hd : d < 16) (h : c.toLower = d.digitChar) :
    digitIn? 16 c = some d ∧ ¬ isPadding c := by
  have hascii : c.toNat < 128 := by
    have hdigits : ∀ d < 16, d.digitChar.toNat < 128 := by decide
    by_contra hlarge
    have hsame : c.toLower = c := by
      refine dif_neg fun hupper => hlarge ?_
      exact lt_of_le_of_lt (UInt32.le_iff_toNat_le.1 hupper.2) (by decide)
    exact hlarge (hsame ▸ h ▸ hdigits d hd)
  exact Text.of_ascii (p := fun c => ∀ d < 16, c.toLower = d.digitChar → digitIn? 16 c = some d ∧ ¬ isPadding c)
    (by decide +kernel) hascii d hd h

private theorem exists_digits {base : Nat} (hbase : 1 < base) (n : Nat) :
    ∃ ds, Nat.toDigits base n = ds.map Nat.digitChar ∧ (∀ d ∈ ds, d < base) ∧ ofDigitValues base ds = n ∧ ds ≠ [] := by
  induction n using Nat.strongRecOn with
  | ind n ih =>
    by_cases hlt : n < base
    · exact ⟨[n], Nat.toDigits_of_lt_base hlt, by simpa using hlt, by simp [ofDigitValues], by simp⟩
    · obtain ⟨ds, htext, hds, hvalue, -⟩ := ih (n / base) (Nat.div_lt_self (by omega) hbase)
      refine ⟨ds ++ [n % base], ?_, ?_, ?_, by simp⟩
      · rw [Nat.toDigits_of_base_le hbase (not_lt.1 hlt), htext, List.map_append, List.map_singleton]
      · rw [List.forall_mem_append]
        exact ⟨hds, List.forall_mem_singleton.2 (Nat.mod_lt n (by omega))⟩
      · rw [ofDigitValues_concat, hvalue, Nat.div_add_mod]

private theorem ofDigitValues_zeros_append (base zeros : Nat) (digits : List Nat) :
    ofDigitValues base (List.replicate zeros 0 ++ digits) = ofDigitValues base digits := by
  induction zeros with
  | zero => rfl
  | succ zeros ih => simpa [List.replicate_succ, ofDigitValues] using ih

private theorem mapM_digitIn? {base : Nat} (hmax : base ≤ 16) {digits : List Nat} (hdigits : ∀ d ∈ digits, d < base)
    {cs : List Char} (h : cs.map Char.toLower = digits.map Nat.digitChar) :
    cs.mapM (digitIn? base) = some digits ∧ ∀ c ∈ cs, ¬ isPadding c := by
  induction digits generalizing cs with
  | nil =>
    obtain rfl : cs = [] := by simpa using h
    simp
  | cons d rest ih =>
    obtain ⟨c, others, rfl, hc, hothers⟩ := List.map_eq_cons_iff.1 h
    obtain ⟨hd, hrest⟩ := List.forall_mem_cons.1 hdigits
    obtain ⟨hvalue, hplain⟩ := digit_of_toLower (by omega) hc
    obtain ⟨hvalues, hplains⟩ := ih hrest hothers
    rw [List.mapM_cons, (digitIn?_eq_some_iff hmax).2 ⟨hvalue, hd⟩, hvalues]
    exact ⟨rfl, List.forall_mem_cons.2 ⟨hplain, hplains⟩⟩

/-- A spelling is read as digits of its number. -/
private theorem Spells.exists_values {base n : Nat} (hbase : 1 < base) (hmax : base ≤ 16) {cs : List Char}
    (h : Spells base n cs) :
    (∃ ds, digitsIn? base cs = some ds ∧ (∀ d ∈ ds, d < base) ∧ ofDigitValues base ds = n) ∧
      ∀ c ∈ cs, ¬ isPadding c := by
  obtain ⟨zeros, htext⟩ := h
  obtain ⟨ds, hdigits, hds, hvalue, hne⟩ := exists_digits hbase n
  have hall : ∀ d ∈ List.replicate zeros 0 ++ ds, d < base := by
    rw [List.forall_mem_append]
    exact ⟨fun d hd => by rw [List.eq_of_mem_replicate hd]; omega, hds⟩
  have hlower : cs.map Char.toLower = (List.replicate zeros 0 ++ ds).map Nat.digitChar := by
    rw [htext, hdigits, List.map_append, List.map_replicate]
    rfl
  have hnonempty : cs ≠ [] := by
    rintro rfl
    simp [hne] at hlower
  obtain ⟨hread, hplain⟩ := mapM_digitIn? hmax hall hlower
  refine ⟨⟨_, ?_, hall, (ofDigitValues_zeros_append base zeros ds).trans hvalue⟩, hplain⟩
  simp only [digitsIn?, List.isEmpty_iff, if_neg hnonempty, hread]

private theorem ofTrimmed_marker {marker : Char} {base : Nat} (h : (marker, base) ∈ markers) (cs : List Char) :
    ofTrimmed ('0' :: marker :: cs) = radixNumber base cs := by
  simp only [markers, List.mem_cons, List.not_mem_nil, or_false, Prod.mk.injEq] at h
  rcases h with ⟨rfl, rfl⟩ | ⟨rfl, rfl⟩ | ⟨rfl, rfl⟩ | ⟨rfl, rfl⟩ | ⟨rfl, rfl⟩ | ⟨rfl, rfl⟩ <;> rfl

private theorem base_of_mem_markers {marker : Char} {base : Nat} (h : (marker, base) ∈ markers) :
    ¬ isPadding marker ∧ base ≤ 16 ∧ ∃ shift, shift ≠ 0 ∧ base = 2 ^ shift := by
  simp only [markers, List.mem_cons, List.not_mem_nil, or_false, Prod.mk.injEq] at h
  rcases h with ⟨rfl, rfl⟩ | ⟨rfl, rfl⟩ | ⟨rfl, rfl⟩ | ⟨rfl, rfl⟩ | ⟨rfl, rfl⟩ | ⟨rfl, rfl⟩
  · exact ⟨by decide, by decide, 4, by decide, rfl⟩
  · exact ⟨by decide, by decide, 4, by decide, rfl⟩
  · exact ⟨by decide, by decide, 3, by decide, rfl⟩
  · exact ⟨by decide, by decide, 3, by decide, rfl⟩
  · exact ⟨by decide, by decide, 1, by decide, rfl⟩
  · exact ⟨by decide, by decide, 1, by decide, rfl⟩

/-- An integer in another base is read with zeros for the digits behind the first with which it has come to `2 ^ 53`. -/
private theorem loose_marked {marker : Char} {base n : Nat} {cs : List Char} (hmarker : (marker, base) ∈ markers)
    (h : Spells base n cs) : (RuleParam.text (String.ofList ('0' :: marker :: cs))).loose = ofNat (kept base n) := by
  obtain ⟨hplain, hmax, shift, hshift, rfl⟩ := base_of_mem_markers hmarker
  obtain ⟨⟨ds, hread, hds, hvalue⟩, hdigits⟩ := h.exists_values (Nat.one_lt_two_pow hshift) hmax
  have hall : ∀ c ∈ '0' :: marker :: cs, ¬ isPadding c :=
    List.forall_mem_cons.2 ⟨by decide, List.forall_mem_cons.2 ⟨hplain, hdigits⟩⟩
  rw [RuleParam.loose, String.toList_ofList, Text.trim_of_forall_not hall, ofTrimmed_marker hmarker, radixNumber, hread]
  simp only [foldl_takeDigit hshift hds, hvalue]

/-- Decimal digits are read as a whole and rounded once. -/
private theorem loose_repr (n : Nat) : (RuleParam.text (Nat.repr n)).loose = ofNat n := by
  have hliteral : (Numeral.mk false (Nat.toDigits 10 n) [] 0).IsLiteral :=
    ⟨fun c hc => isDigit_of_mem_toDigits hc, by simp, rfl, by simp [Nat.toDigits_ne_nil]⟩
  have htext : (Nat.repr n).toList = (Numeral.mk false (Nat.toDigits 10 n) [] 0).literal := by
    simp [Nat.repr, Numeral.literal, Numeral.tail]
  have hvalue : (Numeral.mk false (Nat.toDigits 10 n) [] 0).decimal.value = (n : ℚ) / (1 : Nat) := by
    simp [Numeral.decimal, Decimal.value, natOfDigits_toDigits]
  have hplain : ∀ c ∈ (Nat.repr n).toList, ¬ isPadding c := fun c hc =>
    not_isPadding_of_numericText (Numeral.numericText_literal hliteral) (htext ▸ hc)
  rw [RuleParam.loose, Text.trim_of_forall_not hplain, htext, ofTrimmed_literal hliteral, Numeral.toBinary64_eq,
    ofDecimal_eq_ofRank, hvalue, ofNat, ofRatio_eq_ofRank false Nat.one_pos]

/-- The power of two for the digits that count as zeros. -/
private theorem kept_eq_or_large (shift n : Nat) :
    kept (2 ^ shift) n = n ∨ ∃ e, kept (2 ^ shift) n = n / 2 ^ e * 2 ^ e ∧ 2 ^ (53 + e) ≤ kept (2 ^ shift) n := by
  by_cases hn : n < 2 ^ 53
  · exact .inl (kept_of_lt (lt_of_lt_of_le hn (Nat.le_mul_of_pos_right _ (Nat.two_pow_pos shift))))
  · refine .inr ⟨shift * dropped (2 ^ shift) n, ?_, ?_⟩
    · rw [kept, Nat.pow_mul]
    · rw [Nat.pow_add, Nat.pow_mul]
      exact two_pow_le_kept (Nat.two_pow_pos shift) (not_lt.1 hn)

/-- An integer in base 16, 8 or 2 is read with zeros for the digits behind the first with which it has come to `2 ^ 53`.
So it is read as its decimal digits are, unless one of these digits is not a zero and the number without them lies
halfway between two doubles and is rounded to the lower one. -/
theorem radix_reading {marker : Char} {base n : Nat} {digits : List Char} (hmarker : (marker, base) ∈ markers)
    (hdigits : Spells base n digits) :
    let marked := RuleParam.text (String.ofList ('0' :: marker :: digits))
    let plain := RuleParam.text (Nat.repr n)
    marked.loose = ofNat (kept base n) ∧ plain.loose = ofNat n ∧
      (marked.loose = plain.loose ↔ kept base n = n ∨ ¬ TiesDown (kept base n)) := by
  intro marked plain
  have hmarked : marked.loose = ofNat (kept base n) := loose_marked hmarker hdigits
  have hplain : plain.loose = ofNat n := loose_repr n
  refine ⟨hmarked, hplain, ?_⟩
  rw [hmarked, hplain]
  obtain ⟨-, -, shift, -, rfl⟩ := base_of_mem_markers hmarker
  rcases kept_eq_or_large shift n with hkept | ⟨e, hkept, hlarge⟩
  · simp [hkept]
  · exact ofNat_eq_iff hkept hlarge

theorem radix_reading_upper :
    ('X', 16) ∈ markers ∧ Spells 16 31 ['0', '0', '1', 'f'] ∧
      (RuleParam.text "0X001f").loose = (RuleParam.text "31").loose := by
  have hmarker : ('X', 16) ∈ markers := by decide
  have hdigits : Spells 16 31 ['0', '0', '1', 'f'] := ⟨2, by decide⟩
  have hkept : kept 16 31 = 31 := kept_of_lt (by decide)
  exact ⟨hmarker, hdigits, (radix_reading hmarker hdigits).2.2.2 (.inl hkept)⟩

/-- The last digit of `0x200000000000011` is lost. -/
theorem not_radix_reading_plain :
    ¬ ∀ (marker : Char) (base n : Nat) (digits : List Char), (marker, base) ∈ markers → Spells base n digits →
      (RuleParam.text (String.ofList ('0' :: marker :: digits))).loose = (RuleParam.text (Nat.repr n)).loose := by
  intro h
  have hmarker : ('x', 16) ∈ markers := by decide
  have hdigits : Spells 16 144115188075855889 "200000000000011".toList := ⟨0, by decide +kernel⟩
  have hmarked : String.ofList ('0' :: 'x' :: "200000000000011".toList) = "0x200000000000011" := by decide +kernel
  have hplain : Nat.repr 144115188075855889 = "144115188075855889" := by decide +kernel
  have hdiffers : (RuleParam.text "0x200000000000011").loose ≠ (RuleParam.text "144115188075855889").loose := by
    decide +kernel
  have hsame := h 'x' 16 144115188075855889 _ hmarker hdigits
  rw [hmarked, hplain] at hsame
  exact hdiffers hsame

end Loose

end FieldRules
