import FieldRules.Number.Numeral
import FieldRules.Proofs.Number.Decimal
import FieldRules.Proofs.Text.Case
import Mathlib.Data.List.TakeWhile

/-!
# Plain literals

The plain literals among the numerals, and the text of one. The key facts: `ofLiteral?_eq_some_iff` (a text is read
as a plain literal exactly when it is the text of one), `ofText?_literal` (the reader of all numerals agrees) and
`ofText?_padded` (also when a zero is put before a leading point).
-/

namespace FieldRules

/-! ### The number of a list of digits -/

theorem natOfDigits_eq (cs : List Char) : natOfDigits cs = Nat.ofDigitChars 10 cs 0 := by
  rw [natOfDigits, ofDigitValues, List.foldl_map, Nat.ofDigitChars_eq_foldl]
  rfl

theorem natOfDigits_zero_cons (cs : List Char) : natOfDigits ('0' :: cs) = natOfDigits cs := by
  rw [natOfDigits_eq, natOfDigits_eq, Nat.ofDigitChars_cons]
  rfl

theorem natOfDigits_zeros_append (n : Nat) (cs : List Char) :
    natOfDigits (List.replicate n '0' ++ cs) = natOfDigits cs := by
  rw [natOfDigits_eq, natOfDigits_eq, Nat.ofDigitChars_append, Nat.ofDigitChars_replicate_zero, Nat.mul_zero]

theorem natOfDigits_append_zeros (cs : List Char) (n : Nat) :
    natOfDigits (cs ++ List.replicate n '0') = 10 ^ n * natOfDigits cs := by
  rw [natOfDigits_eq, natOfDigits_eq, Nat.ofDigitChars_append, Nat.ofDigitChars_replicate_zero]

theorem isDigit_of_mem_toDigits {n : Nat} {c : Char} (hc : c ∈ Nat.toDigits 10 n) : c.isDigit :=
  Nat.isDigit_of_mem_toDigits (by decide) (by decide) hc

theorem lt_pow_length_toDigits (n : Nat) : n < 10 ^ (Nat.toDigits 10 n).length :=
  (Nat.length_toDigits_le_iff (by decide) Nat.length_toDigits_pos).1 le_rfl

theorem pow_length_toDigits_le {n w : Nat} (h : n ≠ 0) (hw : (Nat.toDigits 10 n).length = w + 1) : 10 ^ w ≤ n := by
  cases w with
  | zero => exact Nat.pos_of_ne_zero h
  | succ w =>
    by_contra hlt
    have hle := (Nat.length_toDigits_le_iff (by decide) (Nat.succ_pos w)).2 (not_le.1 hlt)
    omega

theorem natOfDigits_toDigits (n : Nat) : natOfDigits (Nat.toDigits 10 n) = n := by
  rw [natOfDigits_eq, Nat.ofDigitChars_ten_toDigits]

namespace Numeral

/-- The decimal that a numeral is read as. -/
def decimal (n : Numeral) : Decimal := ⟨natOfDigits (n.whole ++ n.fraction), n.exponent - n.fraction.length⟩

theorem toBinary64_eq (n : Numeral) : n.toBinary64 = .ofDecimal n.negative n.decimal := rfl

/-- Digits alone, at least one of them, and no exponent. -/
structure IsLiteral (n : Numeral) : Prop where
  whole : ∀ c ∈ n.whole, c.isDigit
  fraction : ∀ c ∈ n.fraction, c.isDigit
  exponent : n.exponent = 0
  nonempty : n.whole ++ n.fraction ≠ []

/-- A point and the digits behind it, if there are any. -/
def tail (fraction : List Char) : List Char := if fraction = [] then [] else '.' :: fraction

/-- The text of a plain literal. -/
def literal (n : Numeral) : List Char := (if n.negative then ['-'] else []) ++ (n.whole ++ tail n.fraction)

private theorem takeWhile_digits {whole : List Char} (h : ∀ c ∈ whole, c.isDigit) (fraction : List Char) :
    (whole ++ tail fraction).takeWhile Char.isDigit = whole := by
  rw [List.takeWhile_append_of_pos h, tail]
  split <;> simp

private theorem dropWhile_digits {whole : List Char} (h : ∀ c ∈ whole, c.isDigit) (fraction : List Char) :
    (whole ++ tail fraction).dropWhile Char.isDigit = tail fraction := by
  rw [List.dropWhile_append_of_pos h, tail]
  split <;> simp

/-- The text behind the sign of a literal does not start with a sign. -/
private theorem head?_unsigned {n : Numeral} (h : n.IsLiteral) {c : Char} (hc : c.isDigit = false) (hp : c ≠ '.') :
    (n.whole ++ tail n.fraction).head? ≠ some c := by
  obtain ⟨negative, whole, fraction, exponent⟩ := n
  cases whole with
  | cons d rest =>
    intro hd
    obtain rfl : d = c := by simpa using hd
    exact absurd (h.whole d List.mem_cons_self) (by simp [hc])
  | nil =>
    have hne : fraction ≠ [] := h.nonempty
    simpa [tail, hne] using hp.symm

private theorem ofLiteral?_of_head? {cs : List Char} (h : cs.head? ≠ some '-') :
    ofLiteral? cs = ofUnsigned? false cs := by
  unfold ofLiteral?
  split
  · simp at h
  · rfl

private theorem ofUnsigned?_eq_some_iff {negative : Bool} {cs : List Char} {n : Numeral} :
    ofUnsigned? negative cs = some n ↔ n.IsLiteral ∧ n.negative = negative ∧ cs = n.whole ++ tail n.fraction := by
  constructor
  · intro h
    have hcs := List.takeWhile_append_dropWhile (p := Char.isDigit) (l := cs)
    have hwhole : ∀ c ∈ cs.takeWhile Char.isDigit, c.isDigit := fun c hc => List.mem_takeWhile_imp hc
    unfold ofUnsigned? at h
    simp only at h
    split at h
    · rename_i hrest
      rw [hrest, List.append_nil] at hcs
      split at h
      · cases h
      · rename_i hne
        obtain rfl := Option.some.inj h
        refine ⟨⟨hwhole, by simp, rfl, by simpa using hne⟩, rfl, ?_⟩
        simp [tail, hcs]
    · rename_i c fraction hrest
      rw [hrest] at hcs
      split at h
      · rename_i hf
        obtain ⟨rfl, hne, hdigits⟩ := hf
        obtain rfl := Option.some.inj h
        have hne' : fraction ≠ [] := by simpa using hne
        refine ⟨⟨hwhole, by simpa using hdigits, rfl, by simp [hne']⟩, rfl, ?_⟩
        simp [tail, hne', hcs]
      · cases h
  · rintro ⟨h, rfl, rfl⟩
    obtain ⟨negative, whole, fraction, exponent⟩ := n
    obtain rfl : exponent = 0 := h.exponent
    unfold ofUnsigned?
    simp only [takeWhile_digits h.whole, dropWhile_digits h.whole]
    by_cases hf : fraction = []
    · have hw : whole ≠ [] := fun hw => h.nonempty (by simp [hw, hf])
      simp [tail, hf, hw]
    · simpa [tail, hf] using h.fraction

/-- A text is read as a plain literal exactly when it is the text of one. -/
theorem ofLiteral?_eq_some_iff {cs : List Char} {n : Numeral} :
    ofLiteral? cs = some n ↔ n.IsLiteral ∧ cs = n.literal := by
  constructor
  · intro h
    unfold ofLiteral? at h
    split at h
    · obtain ⟨hn, hneg, hrest⟩ := ofUnsigned?_eq_some_iff.1 h
      exact ⟨hn, by simp [literal, hneg, hrest]⟩
    · obtain ⟨hn, hneg, hcs⟩ := ofUnsigned?_eq_some_iff.1 h
      exact ⟨hn, by simp [literal, hneg, hcs]⟩
  · rintro ⟨h, rfl⟩
    cases hneg : n.negative with
    | true =>
      have htext : n.literal = '-' :: (n.whole ++ tail n.fraction) := by simp [literal, hneg]
      rw [htext]
      exact ofUnsigned?_eq_some_iff.2 ⟨h, hneg, rfl⟩
    | false =>
      have htext : n.literal = n.whole ++ tail n.fraction := by simp [literal, hneg]
      rw [htext, ofLiteral?_of_head? (head?_unsigned h (by decide) (by decide))]
      exact ofUnsigned?_eq_some_iff.2 ⟨h, hneg, rfl⟩

/-! ### The grammar of plain literals -/

/-- An optional minus sign, any digits, an optional point, and at least one digit. -/
def NumericText (cs : List Char) : Prop :=
  ∃ sign whole point digits, (sign = [] ∨ sign = ['-']) ∧ (∀ c ∈ whole, c.isDigit) ∧ (point = [] ∨ point = ['.']) ∧
    (∀ c ∈ digits, c.isDigit) ∧ digits ≠ [] ∧ cs = sign ++ whole ++ point ++ digits

theorem numericText_literal {n : Numeral} (h : n.IsLiteral) : NumericText n.literal := by
  have hsign : (if n.negative then ['-'] else []) = [] ∨ (if n.negative then ['-'] else []) = ['-'] := by
    cases n.negative <;> simp
  by_cases hf : n.fraction = []
  · have hw : n.whole ≠ [] := fun hw => h.nonempty (by simp [hw, hf])
    exact ⟨_, [], [], n.whole, hsign, by simp, .inl rfl, h.whole, hw, by simp [literal, tail, hf]⟩
  · exact ⟨_, n.whole, ['.'], n.fraction, hsign, h.whole, .inr rfl, h.fraction, hf, by simp [literal, tail, hf]⟩

private theorem exists_literal_of_numericText {cs : List Char} (h : NumericText cs) :
    ∃ n : Numeral, n.IsLiteral ∧ cs = n.literal := by
  obtain ⟨sign, whole, point, digits, hsign, hwhole, hpoint, hdigits, hne, rfl⟩ := h
  have htext : sign = if decide (sign = ['-']) then ['-'] else [] := by
    rcases hsign with rfl | rfl <;> decide
  rcases hpoint with rfl | rfl
  · refine ⟨⟨decide (sign = ['-']), whole ++ digits, [], 0⟩, ⟨?_, by simp, rfl, by simp [hne]⟩, ?_⟩
    · intro c hc
      exact (List.mem_append.1 hc).elim (hwhole c) (hdigits c)
    · unfold literal
      rw [← htext]
      simp [tail]
  · refine ⟨⟨decide (sign = ['-']), whole, digits, 0⟩, ⟨hwhole, hdigits, rfl, by simp [hne]⟩, ?_⟩
    unfold literal
    rw [← htext]
    simp [tail, hne]

/-- What is read as a plain literal, by its grammar. -/
theorem isSome_ofLiteral?_iff {cs : List Char} : (ofLiteral? cs).isSome ↔ NumericText cs := by
  rw [Option.isSome_iff_exists]
  constructor
  · rintro ⟨n, hn⟩
    obtain ⟨hlit, rfl⟩ := ofLiteral?_eq_some_iff.1 hn
    exact numericText_literal hlit
  · intro h
    obtain ⟨n, hn⟩ := exists_literal_of_numericText h
    exact ⟨n, ofLiteral?_eq_some_iff.2 hn⟩

theorem NumericText.ne_nil {cs : List Char} (h : NumericText cs) : cs ≠ [] := by
  obtain ⟨sign, whole, point, digits, -, -, -, -, hne, rfl⟩ := h
  simp [hne]

theorem NumericText.mem {cs : List Char} (h : NumericText cs) {c : Char} (hc : c ∈ cs) :
    c.isDigit ∨ c = '-' ∨ c = '.' := by
  obtain ⟨sign, whole, point, digits, hsign, hwhole, hpoint, hdigits, -, rfl⟩ := h
  simp only [List.mem_append] at hc
  rcases hc with ((hc | hc) | hc) | hc
  · rcases hsign with rfl | rfl
    · cases hc
    · exact .inr (.inl (List.mem_singleton.1 hc))
  · exact .inl (hwhole c hc)
  · rcases hpoint with rfl | rfl
    · cases hc
    · exact .inr (.inr (List.mem_singleton.1 hc))
  · exact .inl (hdigits c hc)

theorem NumericText.not_mem {cs : List Char} (h : NumericText cs) {c : Char} (hdigit : c.isDigit = false)
    (hminus : c ≠ '-') (hpoint : c ≠ '.') : c ∉ cs := by
  intro hc
  rcases h.mem hc with hd | rfl | rfl
  · rw [hdigit] at hd
    cases hd
  · exact hminus rfl
  · exact hpoint rfl

theorem toNat_lt_of_isDigit {c : Char} (h : c.isDigit) : c.toNat < 128 :=
  lt_of_le_of_lt (Char.isDigit_iff_toNat.1 h).2 (by decide)

theorem not_isAlpha_of_isDigit {c : Char} (h : c.isDigit) : ¬ c.isAlpha :=
  Text.of_ascii (p := fun c => c.isDigit → ¬ c.isAlpha) (by decide) (toNat_lt_of_isDigit h) h

/-- The text of a literal has no letters. -/
theorem NumericText.ascii {cs : List Char} (h : NumericText cs) {c : Char} (hc : c ∈ cs) :
    c.toNat < 128 ∧ ¬ c.isAlpha := by
  rcases h.mem hc with hdigit | rfl | rfl
  · exact ⟨toNat_lt_of_isDigit hdigit, not_isAlpha_of_isDigit hdigit⟩
  · decide
  · decide

/-! ### The reader of all numerals on plain literals -/

private theorem takeSign_literal_append {n : Numeral} (h : n.IsLiteral) (rest : List Char) :
    takeSign (n.literal ++ rest) = (n.negative, n.whole ++ (tail n.fraction ++ rest)) := by
  cases hneg : n.negative with
  | true => simp [literal, hneg, takeSign]
  | false =>
    have htext : n.literal ++ rest = n.whole ++ tail n.fraction ++ rest := by simp [literal, hneg]
    have hne : n.whole ++ tail n.fraction ≠ [] := by
      intro hnil
      obtain ⟨hw, hf⟩ := List.append_eq_nil_iff.1 hnil
      refine h.nonempty ?_
      rw [hw, List.nil_append]
      by_contra hfraction
      simp [tail, hfraction] at hf
    have hhead : (n.whole ++ tail n.fraction ++ rest).head? = (n.whole ++ tail n.fraction).head? :=
      List.head?_append_of_ne_nil _ hne
    have hminus := head?_unsigned h (show '-'.isDigit = false by decide) (by decide)
    have hplus := head?_unsigned h (show '+'.isDigit = false by decide) (by decide)
    rw [← hhead] at hminus hplus
    rw [htext]
    unfold takeSign
    split
    · rename_i heq
      simp [heq] at hminus
    · rename_i heq
      simp [heq] at hplus
    · rw [List.append_assoc]

/-- An exponent part does not go on with the digits before it, and does not start with a point. -/
private theorem exponent?_cases {rest : List Char} {e : Int} (h : exponent? rest = some e) :
    rest = [] ∨ ∃ c after, rest = c :: after ∧ c.isDigit = false ∧ c ≠ '.' := by
  cases rest with
  | nil => exact .inl rfl
  | cons c after =>
    have hletter : c = 'e' ∨ c = 'E' := by
      by_contra hother
      simp [exponent?, hother] at h
    refine .inr ⟨c, after, rfl, ?_⟩
    rcases hletter with rfl | rfl <;> decide

/-- A literal is read together with an exponent behind it. -/
theorem ofText?_literal_append {n : Numeral} (h : n.IsLiteral) {rest : List Char} {e : Int}
    (he : exponent? rest = some e) : ofText? (n.literal ++ rest) = some { n with exponent := e } := by
  have hsign := takeSign_literal_append h rest
  have htake : rest.takeWhile Char.isDigit = [] ∧ rest.dropWhile Char.isDigit = rest := by
    rcases exponent?_cases he with rfl | ⟨c, after, rfl, hc, -⟩
    · exact ⟨rfl, rfl⟩
    · simp [hc]
  obtain ⟨negative, whole, fraction, exponent⟩ := n
  have hwhole : ∀ c ∈ whole, c.isDigit := h.whole
  have hfraction : ∀ c ∈ fraction, c.isDigit := h.fraction
  unfold ofText?
  rw [hsign]
  simp only [List.takeWhile_append_of_pos hwhole, List.dropWhile_append_of_pos hwhole]
  by_cases hf : fraction = []
  · have hw : whole ≠ [] := fun hw => h.nonempty (by simp [hw, hf])
    -- without a point the exponent follows the digits at once
    rcases exponent?_cases he with rfl | ⟨c, after, rfl, hc, hpoint⟩
    · simp [tail, hf, hw, he]
    · simp [tail, hf, hw, he, hc, hpoint]
  · have hpoint : '.'.isDigit = false := by decide
    simp only [tail, if_neg hf, List.cons_append, List.takeWhile_cons, List.dropWhile_cons, hpoint, Bool.false_eq_true,
      if_false, List.takeWhile_append_of_pos hfraction, List.dropWhile_append_of_pos hfraction, htake.1, htake.2, he]
    simp [hf]

theorem ofText?_literal {n : Numeral} (h : n.IsLiteral) : ofText? n.literal = some n := by
  have hread := ofText?_literal_append h (show exponent? [] = some 0 from rfl)
  rw [List.append_nil, ← h.exponent] at hread
  exact hread

/-- A zero for the digits before the point, when there are none. -/
private def withWhole (n : Numeral) : Numeral := { n with whole := if n.whole = [] then ['0'] else n.whole }

private theorem padded_of_digit {sign rest : List Char} (hsign : sign = [] ∨ sign = ['-']) {d : Char}
    (hd : d.isDigit) : padded (sign ++ d :: rest) = sign ++ d :: rest := by
  have hpoint : d ≠ '.' := by rintro rfl; exact absurd hd (by decide)
  have hminus : d ≠ '-' := by rintro rfl; exact absurd hd (by decide)
  rcases hsign with rfl | rfl
  · unfold padded
    split
    · rename_i heq
      exact absurd (List.cons.inj heq).1 hminus
    · rename_i heq
      exact absurd (List.cons.inj heq).1 hpoint
    · rfl
  · unfold padded
    split
    · rename_i heq
      exact absurd (List.cons.inj (List.cons.inj heq).2).1 hpoint
    · rename_i heq
      exact absurd (List.cons.inj heq).1 (by decide)
    · rfl

private theorem padded_literal {n : Numeral} (h : n.IsLiteral) : padded n.literal = n.withWhole.literal := by
  obtain ⟨negative, whole, fraction, exponent⟩ := n
  cases whole with
  | nil =>
    have hne : fraction ≠ [] := h.nonempty
    cases negative <;> simp [literal, withWhole, tail, hne, padded]
  | cons d rest =>
    have hd : d.isDigit := h.whole d List.mem_cons_self
    exact padded_of_digit (by cases negative <;> simp) hd

private theorem isLiteral_withWhole {n : Numeral} (h : n.IsLiteral) : n.withWhole.IsLiteral := by
  refine ⟨?_, h.fraction, h.exponent, ?_⟩
  · unfold withWhole
    simp only
    split
    · simp
    · exact h.whole
  · unfold withWhole
    simp only
    split <;> simp [*]

private theorem toBinary64_withWhole (n : Numeral) : n.withWhole.toBinary64 = n.toBinary64 := by
  unfold withWhole toBinary64
  simp only
  split
  · rename_i hw
    rw [hw, List.singleton_append, natOfDigits_zero_cons, List.nil_append]
  · rfl

/-- A plain literal with a zero put before a leading point is read as a numeral of the same number. -/
theorem ofText?_padded {cs : List Char} {n : Numeral} (h : ofLiteral? cs = some n) :
    ∃ m, ofText? (padded cs) = some m ∧ m.toBinary64 = n.toBinary64 := by
  obtain ⟨hlit, rfl⟩ := ofLiteral?_eq_some_iff.1 h
  refine ⟨n.withWhole, ?_, toBinary64_withWhole n⟩
  rw [padded_literal hlit]
  exact ofText?_literal (isLiteral_withWhole hlit)

end Numeral

end FieldRules
