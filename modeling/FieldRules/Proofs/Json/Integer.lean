import FieldRules.Proofs.Json.Token
import FieldRules.Proofs.Number.Literal

/-!
# Integers in JSON

The integers among the JSON numbers, as they are written (`Integer`), and what becomes of one when its text is read.
The key facts: `Token.literal?_eq_integer_iff` (the literals without a fraction and an exponent are the integers),
`Integer.number?_of_fitsWord` (an integer of 64 bits keeps its digits) and `Integer.text_ne_of_number?` (any other one
is written with other characters from then on).
-/

namespace FieldRules

open Data (Number)

/-! ### Digits -/

private theorem digitValue_of_isDigit {c : Char} (h : c.isDigit) :
    digitValue c < 10 ∧ Nat.toDigits 10 (digitValue c) = [c] ∧ (c ≠ '0' → 0 < digitValue c) :=
  Text.of_ascii (p := fun c => c.isDigit →
    digitValue c < 10 ∧ Nat.toDigits 10 (digitValue c) = [c] ∧ (c ≠ '0' → 0 < digitValue c))
    (by decide) (Numeral.toNat_lt_of_isDigit h) h

/-- Digits behind a number that is not zero stand behind its digits. -/
private theorem toDigits_ofDigitChars {n : Nat} (hn : 0 < n) {cs : List Char} (h : ∀ c ∈ cs, c.isDigit) :
    Nat.toDigits 10 (Nat.ofDigitChars 10 cs n) = Nat.toDigits 10 n ++ cs := by
  induction cs generalizing n with
  | nil => simp
  | cons c rest ih =>
    obtain ⟨hc, hrest⟩ := List.forall_mem_cons.1 h
    obtain ⟨hlt, hdigit, -⟩ := digitValue_of_isDigit hc
    rw [Nat.ofDigitChars_cons, ← digitValue, ih (by omega) hrest, ← Nat.toDigits_append_toDigits (by decide) hn hlt,
      hdigit, List.append_assoc, List.singleton_append]

private theorem ofDigitChars_lt {cs : List Char} (h : ∀ c ∈ cs, c.isDigit) (n : Nat) :
    Nat.ofDigitChars 10 cs n < (n + 1) * 10 ^ cs.length := by
  induction cs generalizing n with
  | nil => simp
  | cons c rest ih =>
    obtain ⟨hc, hrest⟩ := List.forall_mem_cons.1 h
    obtain ⟨hlt, -, -⟩ := digitValue_of_isDigit hc
    rw [Nat.ofDigitChars_cons, ← digitValue, List.length_cons, Nat.pow_succ', ← Nat.mul_assoc]
    exact lt_of_lt_of_le (ih hrest _) (Nat.mul_le_mul_right _ (by omega))

theorem natOfDigits_lt {cs : List Char} (h : ∀ c ∈ cs, c.isDigit) : natOfDigits cs < 10 ^ cs.length := by
  have hlt := ofDigitChars_lt h 0
  rwa [Nat.zero_add, Nat.one_mul, ← natOfDigits_eq] at hlt

/-- The digits of a number that is not zero do not begin with a zero. -/
theorem exists_toDigits_eq_cons {n : Nat} (hn : n ≠ 0) : ∃ c rest, Nat.toDigits 10 n = c :: rest ∧ c ≠ '0' := by
  obtain ⟨c, rest, hdigits⟩ := List.exists_cons_of_ne_nil (Nat.toDigits_ne_nil (b := 10) (n := n))
  refine ⟨c, rest, hdigits, ?_⟩
  rintro rfl
  have hrest : ∀ c ∈ rest, c.isDigit :=
    fun c hc => isDigit_of_mem_toDigits (hdigits ▸ List.mem_cons_of_mem _ hc)
  have hlt := natOfDigits_lt hrest
  rw [← natOfDigits_zero_cons, ← hdigits, natOfDigits_toDigits] at hlt
  have hpos : 0 < rest.length := by
    by_contra hnone
    obtain rfl : rest = [] := List.eq_nil_of_length_eq_zero (by omega)
    simp only [List.length_nil, Nat.pow_zero] at hlt
    omega
  have hle := (Nat.length_toDigits_le_iff (by decide) hpos).2 hlt
  rw [hdigits, List.length_cons] at hle
  omega

/-- Digits of which the first is no zero are the digits of their number. -/
private theorem toDigits_natOfDigits {c : Char} (hc : c ≠ '0') {cs : List Char} (h : ∀ d ∈ c :: cs, d.isDigit) :
    Nat.toDigits 10 (natOfDigits (c :: cs)) = c :: cs := by
  obtain ⟨hdigit, hrest⟩ := List.forall_mem_cons.1 h
  obtain ⟨-, hdigits, hpos⟩ := digitValue_of_isDigit hdigit
  rw [natOfDigits_eq, Nat.ofDigitChars_cons, ← digitValue, Nat.mul_zero, Nat.zero_add,
    toDigits_ofDigitChars (hpos hc) hrest, hdigits, List.singleton_append]

/-! ### Doubles -/

namespace NumberStyle

private theorem point_mem_positional (digits : List Char) (lead : Int) : '.' ∈ positional true digits lead := by
  unfold positional
  split
  · simp
  · simp only
    split <;> simp

private theorem exists_mem_magnitude (d : Decimal) : ∃ c ∈ json.magnitude d, c ≠ '-' ∧ c.isDigit = false := by
  simp only [magnitude]
  split
  · exact ⟨'.', point_mem_positional _ _, by decide⟩
  · exact ⟨'e', by simp [scientific], by decide⟩

/-- A double is never written with digits and a minus sign alone. -/
private theorem exists_mem_render_json (x : Binary64) : ∃ c ∈ (json.render x).toList, c ≠ '-' ∧ c.isDigit = false := by
  cases x with
  | nan => exact ⟨'n', by decide, by decide⟩
  | infinity negative => exact ⟨'n', by cases negative <;> decide, by decide⟩
  | finite negative rank =>
    obtain ⟨c, hc, hother⟩ := exists_mem_magnitude (Decimal.shortest .even rank)
    refine ⟨c, ?_, hother⟩
    rw [render, String.toList_ofList]
    exact List.mem_append_right _ hc

end NumberStyle

namespace Json

/-- An integer as JSON writes it: a minus sign or none, and digits of which the first is no zero unless it is alone. These
are the number literals without a fraction and an exponent (`Token.literal?_eq_integer_iff`). -/
structure Integer where
  negative : Bool
  digits : List Char
  isDigit : ∀ c ∈ digits, c.isDigit
  canonical : digits = ['0'] ∨ ∃ c rest, digits = c :: rest ∧ c ≠ '0'

namespace Integer

variable (i : Integer)

def chars : List Char := (if i.negative then ['-'] else []) ++ i.digits

def text : String := String.ofList i.chars

def magnitude : Nat := natOfDigits i.digits

def literal : Literal := ⟨i.negative, i.digits, [], none⟩

/-- The integer as a number of data. -/
def number : Number := if i.negative then .negative i.magnitude else .natural i.magnitude

/-- The integers of 64 bits: without a sign those below `2 ^ 64`, with one those from `-2 ^ 63` to `-1`. -/
def FitsWord : Prop := if i.negative then 1 ≤ i.magnitude ∧ i.magnitude ≤ 2 ^ 63 else i.magnitude < 2 ^ 64

instance : Decidable i.FitsWord :=
  inferInstanceAs (Decidable (if i.negative then 1 ≤ i.magnitude ∧ i.magnitude ≤ 2 ^ 63 else i.magnitude < 2 ^ 64))

private theorem toDigits_magnitude : Nat.toDigits 10 i.magnitude = i.digits := by
  rcases i.canonical with hzero | ⟨c, rest, hdigits, hc⟩
  · rw [magnitude, hzero]
    decide
  · have hall := i.isDigit
    rw [hdigits] at hall
    rw [magnitude, hdigits, toDigits_natOfDigits hc hall]

theorem text_number : i.number.text = i.text := by
  unfold number text chars
  cases i.negative <;> simp [Number.text, i.toDigits_magnitude]

private theorem exists_digits_eq_cons : ∃ c cs, i.digits = c :: cs ∧ c.isDigit := by
  have hdigits := i.isDigit
  rcases i.canonical with hzero | ⟨c, cs, hcs, -⟩
  · exact ⟨'0', [], hzero, by decide⟩
  · rw [hcs] at hdigits
    exact ⟨c, cs, hcs, hdigits c List.mem_cons_self⟩

private theorem exists_chars_eq_cons : ∃ c cs, i.chars = c :: cs ∧ (c = '-' ∨ c.isDigit) := by
  obtain ⟨c, cs, hcs, hc⟩ := i.exists_digits_eq_cons
  unfold chars
  cases i.negative with
  | true => exact ⟨'-', i.digits, rfl, .inl rfl⟩
  | false => exact ⟨c, cs, hcs, .inr hc⟩

/-! ### What an integer is read as -/

section Reading

variable {i}

theorem le_ofDigitChars (n : Nat) (cs : List Char) : n ≤ Nat.ofDigitChars 10 cs n := by
  induction cs generalizing n with
  | nil => exact le_rfl
  | cons c rest ih =>
    rw [Nat.ofDigitChars_cons]
    exact le_trans (by omega) (ih _)

/-- Digits of a number of 64 bits are taken in to the last one. -/
theorem absorb_of_lt {n : Nat} {cs : List Char} (h : Nat.ofDigitChars 10 cs n < UInt64.size) :
    Literal.absorb n cs = (Nat.ofDigitChars 10 cs n, []) := by
  induction cs generalizing n with
  | nil => rfl
  | cons c rest ih =>
    rw [Nat.ofDigitChars_cons, ← digitValue] at h ⊢
    rw [Literal.absorb, if_pos (lt_of_le_of_lt (le_ofDigitChars _ _) h), ih h]

/-- Of those of a greater number some are left. -/
private theorem absorb_of_le {n : Nat} {cs : List Char} (hn : n < UInt64.size)
    (h : UInt64.size ≤ Nat.ofDigitChars 10 cs n) : (Literal.absorb n cs).2 ≠ [] := by
  induction cs generalizing n with
  | nil => exact absurd h (not_le.2 hn)
  | cons c rest ih =>
    rw [Nat.ofDigitChars_cons, ← digitValue] at h
    rw [Literal.absorb]
    split
    · rename_i hnext
      exact ih hnext h
    · simp

private theorem absorb_of_small (h : i.magnitude < 2 ^ 64) : Literal.absorb 0 i.digits = (i.magnitude, []) := by
  have hvalue : i.magnitude = Nat.ofDigitChars 10 i.digits 0 := natOfDigits_eq _
  rw [hvalue] at h ⊢
  exact absorb_of_lt h

/-- What an integer is read as, by the digits that were taken in and those that were left. -/
private theorem number?_literal {n : Nat} {rest : List Char} (h : Literal.absorb 0 i.digits = (n, rest)) :
    i.literal.number? =
      if rest = [] then
        some (if i.negative = false then .natural n else if 1 ≤ n ∧ n ≤ 2 ^ 63 then .negative n
          else .real (Binary64.ofNat n).neg)
      else (Literal.scale? n rest.length).map fun x => .real (if i.negative then x.neg else x) := by
  have hsize : UInt64.size / 2 = 2 ^ 63 := rfl
  unfold Literal.number? literal
  cases hsign : i.negative with
  | false => cases rest <;> simp [h, Literal.absorb]
  | true => cases rest <;> simp [h, Literal.absorb, hsize, apply_ite]

/-- An integer of 64 bits is read as it is. -/
theorem number?_of_fitsWord (h : i.FitsWord) : i.literal.number? = some i.number := by
  unfold FitsWord at h
  unfold number
  cases hsign : i.negative with
  | false =>
    have hsmall : i.magnitude < 2 ^ 64 := by simpa [hsign] using h
    simp [number?_literal (absorb_of_small hsmall), hsign]
  | true =>
    have hbound : 1 ≤ i.magnitude ∧ i.magnitude ≤ 2 ^ 63 := by simpa [hsign] using h
    have hsmall : i.magnitude < 2 ^ 64 := by omega
    rw [number?_literal (absorb_of_small hsmall), if_pos rfl, hsign, if_neg (by decide), if_pos hbound, if_pos rfl]

/-- Any other one is read as a double, if at all. -/
private theorem exists_real_of_number? (h : ¬ i.FitsWord) {n : Number} (hn : i.literal.number? = some n) :
    ∃ x, n = .real x := by
  unfold FitsWord at h
  by_cases hsmall : i.magnitude < 2 ^ 64
  · cases hsign : i.negative with
    | false => exact absurd hsmall (by simpa [hsign] using h)
    | true =>
      have hbound : ¬ (1 ≤ i.magnitude ∧ i.magnitude ≤ 2 ^ 63) := by simpa [hsign] using h
      rw [number?_literal (absorb_of_small hsmall), if_pos rfl, hsign, if_neg (by decide), if_neg hbound] at hn
      exact ⟨_, (Option.some.inj hn).symm⟩
  · have hrest : (Literal.absorb 0 i.digits).2 ≠ [] := by
      refine absorb_of_le (by decide) ?_
      rw [← natOfDigits_eq]
      exact not_lt.1 hsmall
    rw [number?_literal rfl, if_neg hrest, Option.map_eq_some_iff] at hn
    obtain ⟨x, -, hx⟩ := hn
    exact ⟨_, hx.symm⟩

private theorem mem_chars {c : Char} (h : c ∈ i.chars) : c = '-' ∨ c.isDigit := by
  rcases List.mem_append.1 h with hsign | hdigits
  · have hminus : c ∈ ['-'] := by
      split at hsign
      · exact hsign
      · cases hsign
    exact .inl (List.mem_singleton.1 hminus)
  · exact .inr (i.isDigit c hdigits)

/-- Its text has other characters from then on. -/
theorem text_ne_of_number? (h : ¬ i.FitsWord) {n : Number} (hn : i.literal.number? = some n) : n.text ≠ i.text := by
  obtain ⟨x, rfl⟩ := exists_real_of_number? h hn
  obtain ⟨c, hc, hminus, hdigit⟩ := NumberStyle.exists_mem_render_json x
  intro htext
  have hchars : (NumberStyle.json.render x).toList = i.chars :=
    (congrArg String.toList htext).trans String.toList_ofList
  rcases mem_chars (hchars ▸ hc) with rfl | hc
  · exact hminus rfl
  · exact absurd hc (by simp [hdigit])

end Reading

end Integer

/-! ### The integers among the literals -/

namespace Token

theorem digits?_eq_some_iff {cs ds rest : List Char} :
    digits? cs = some (ds, rest) ↔
      ds ≠ [] ∧ (∀ c ∈ ds, c.isDigit) ∧ cs = ds ++ rest ∧ ∀ c, rest.head? = some c → c.isDigit = false := by
  constructor
  · intro h
    unfold digits? at h
    split at h
    · cases h
    · rename_i hne
      cases h
      refine ⟨hne, fun c => List.mem_takeWhile_imp, List.takeWhile_append_dropWhile.symm, ?_⟩
      intro c hc
      have hstop := List.head?_dropWhile_not Char.isDigit cs
      rwa [hc] at hstop
  · rintro ⟨hne, hds, rfl, hrest⟩
    have hstop : rest.takeWhile Char.isDigit = [] ∧ rest.dropWhile Char.isDigit = rest := by
      cases rest with
      | nil => exact ⟨rfl, rfl⟩
      | cons c cs => simp [hrest c rfl]
    unfold digits?
    rw [List.takeWhile_append_of_pos hds, List.dropWhile_append_of_pos hds, hstop.1, hstop.2, List.append_nil]
    split
    · exact absurd rfl hne
    · rfl

theorem whole?_eq_some_iff {cs ds rest : List Char} :
    whole? cs = some (ds, rest) ↔
      (ds = ['0'] ∨ ∃ c more, ds = c :: more ∧ c ≠ '0') ∧ (∀ c ∈ ds, c.isDigit) ∧ cs = ds ++ rest ∧
        ∀ c, rest.head? = some c → c.isDigit = false := by
  constructor
  · intro h
    unfold whole? at h
    split at h
    · rename_i c more
      split at h
      · cases h
      · rename_i hc
        cases h
        exact ⟨.inl rfl, List.forall_mem_singleton.2 rfl, rfl, by simpa using hc⟩
    · cases h
      exact ⟨.inl rfl, List.forall_mem_singleton.2 rfl, rfl, by simp⟩
    · rename_i hzeros hzero
      obtain ⟨hne, hds, rfl, hrest⟩ := digits?_eq_some_iff.1 h
      obtain ⟨c, more, rfl⟩ := List.exists_cons_of_ne_nil hne
      refine ⟨.inr ⟨c, more, rfl, ?_⟩, hds, rfl, hrest⟩
      rintro rfl
      cases hmore : more ++ rest with
      | nil => exact hzero (by simp [hmore])
      | cons d others => exact hzeros d others (by simp [hmore])
  · rintro ⟨rfl | ⟨c, more, rfl, hc⟩, hds, rfl, hrest⟩
    · cases rest with
      | nil => rfl
      | cons c cs => simp [whole?, hrest c rfl]
    · rw [whole?, digits?_eq_some_iff]
      · exact ⟨by simp, hds, rfl, hrest⟩
      · rintro d others h
        exact hc (List.cons.inj h).1
      · intro h
        exact hc (List.cons.inj h).1

theorem fraction?_eq_nil_iff {cs rest : List Char} :
    fraction? cs = some ([], rest) ↔ cs = rest ∧ ∀ c, rest.head? = some c → c ≠ '.' := by
  unfold fraction?
  split
  · rename_i after
    rw [digits?_eq_some_iff]
    constructor
    · rintro ⟨hne, -⟩
      exact absurd rfl hne
    · rintro ⟨rfl, hrest⟩
      exact absurd rfl (hrest '.' rfl)
  · rename_i hpoint
    constructor
    · rintro h
      cases h
      refine ⟨rfl, ?_⟩
      rintro c hc rfl
      obtain ⟨after, hafter⟩ := List.head?_eq_some_iff.1 hc
      exact hpoint after hafter
    · rintro ⟨rfl, -⟩
      rfl

theorem exponent?_eq_none_iff {cs rest : List Char} :
    exponent? cs = some (none, rest) ↔ cs = rest ∧ ∀ c, rest.head? = some c → c ≠ 'e' ∧ c ≠ 'E' := by
  unfold exponent?
  split
  · rename_i c after
    split
    · rename_i hletter
      constructor
      · intro h
        obtain ⟨x, -, hx⟩ := Option.map_eq_some_iff.1 h
        cases hx
      · rintro ⟨rfl, hrest⟩
        rcases hletter with rfl | rfl
        · exact absurd rfl (hrest _ rfl).1
        · exact absurd rfl (hrest _ rfl).2
    · rename_i hletter
      rw [not_or] at hletter
      constructor
      · intro h
        cases h
        exact ⟨rfl, fun d hd => Option.some.inj hd ▸ hletter⟩
      · rintro ⟨rfl, -⟩
        rfl
  · constructor
    · intro h
      cases h
      exact ⟨rfl, by simp⟩
    · rintro ⟨rfl, -⟩
      rfl

theorem endsNumber_iff {rest : List Char} :
    EndsNumber rest ↔ (∀ c, rest.head? = some c → c.isDigit = false) ∧ (∀ c, rest.head? = some c → c ≠ '.') ∧
      ∀ c, rest.head? = some c → c ≠ 'e' ∧ c ≠ 'E' := by
  cases rest with
  | nil => simp [EndsNumber]
  | cons c cs => simp [EndsNumber, isNumberPart, and_assoc]

/-- A literal behind its sign, and what follows it. -/
def unsigned? (negative : Bool) (cs : List Char) : Option (Literal × List Char) := do
  let (whole, cs) ← whole? cs
  let (fraction, cs) ← fraction? cs
  let (exponent, cs) ← exponent? cs
  return (⟨negative, whole, fraction, exponent⟩, cs)

theorem literal?_minus (cs : List Char) : literal? ('-' :: cs) = unsigned? true cs := rfl

theorem literal?_of_no_minus {cs : List Char} (h : cs.head? ≠ some '-') : literal? cs = unsigned? false cs := by
  unfold literal?
  split
  rename_i heq
  split at heq
  · exact absurd rfl h
  · cases heq
    rfl

private theorem unsigned?_eq_integer_iff {negative : Bool} {cs rest : List Char} {l : Literal} :
    unsigned? negative cs = some (l, rest) ∧ l.fraction = [] ∧ l.exponent = none ↔
      ∃ i : Integer, i.negative = negative ∧ l = i.literal ∧ cs = i.digits ++ rest ∧ EndsNumber rest := by
  simp only [unsigned?, Option.bind_eq_bind, Option.bind_eq_some_iff, Option.pure_def, Option.some.injEq, Prod.mk.injEq]
  constructor
  · rintro ⟨⟨⟨whole, cs'⟩, hwhole, ⟨_, cs''⟩, hfraction, ⟨_, _⟩, hexponent, rfl, rfl⟩, rfl, rfl⟩
    obtain ⟨hcanonical, hdigits, rfl, hdigit⟩ := whole?_eq_some_iff.1 hwhole
    obtain ⟨rfl, hpoint⟩ := fraction?_eq_nil_iff.1 hfraction
    obtain ⟨rfl, hletter⟩ := exponent?_eq_none_iff.1 hexponent
    exact ⟨⟨negative, whole, hdigits, hcanonical⟩, rfl, rfl, rfl, endsNumber_iff.2 ⟨hdigit, hpoint, hletter⟩⟩
  · rintro ⟨i, rfl, rfl, rfl, hends⟩
    obtain ⟨hdigit, hpoint, hletter⟩ := endsNumber_iff.1 hends
    exact ⟨⟨(i.digits, rest), whole?_eq_some_iff.2 ⟨i.canonical, i.isDigit, rfl, hdigit⟩,
      ([], rest), fraction?_eq_nil_iff.2 ⟨rfl, hpoint⟩, (none, rest), exponent?_eq_none_iff.2 ⟨rfl, hletter⟩, rfl, rfl⟩,
      rfl, rfl⟩

/-- The literals without a fraction and an exponent are the integers, each taken as far as it goes. -/
theorem literal?_eq_integer_iff {cs rest : List Char} {l : Literal} :
    literal? cs = some (l, rest) ∧ l.fraction = [] ∧ l.exponent = none ↔
      ∃ i : Integer, l = i.literal ∧ cs = i.chars ++ rest ∧ EndsNumber rest := by
  by_cases hminus : cs.head? = some '-'
  · obtain ⟨cs', rfl⟩ := List.head?_eq_some_iff.1 hminus
    rw [literal?_minus, unsigned?_eq_integer_iff]
    constructor
    · rintro ⟨i, hsign, hl, rfl, hends⟩
      exact ⟨i, hl, by simp [Integer.chars, hsign], hends⟩
    · rintro ⟨i, hl, hcs, hends⟩
      have hsign : i.negative = true := by
        by_contra hsign
        obtain ⟨c, ds, hds, hc⟩ := i.exists_digits_eq_cons
        simp only [Integer.chars, hsign, hds] at hcs
        obtain rfl := (List.cons.inj hcs).1
        exact absurd hc (by decide)
      exact ⟨i, hsign, hl, by simpa [Integer.chars, hsign] using hcs, hends⟩
  · rw [literal?_of_no_minus hminus, unsigned?_eq_integer_iff]
    constructor
    · rintro ⟨i, hsign, hl, rfl, hends⟩
      exact ⟨i, hl, by simp [Integer.chars, hsign], hends⟩
    · rintro ⟨i, hl, rfl, hends⟩
      have hsign : i.negative = false := by
        by_contra hsign
        exact hminus (by simp [Integer.chars, hsign])
      exact ⟨i, hsign, hl, by simp [Integer.chars, hsign], hends⟩

/-- What begins as a number is read as one. -/
theorem next?_of_numeral {c : Char} (h : c = '-' ∨ c.isDigit) (cs : List Char) :
    isSpace c = false ∧ next? (c :: cs) = (literal? (c :: cs)).map fun (l, rest) => (.number l, rest) := by
  constructor
  · by_contra hspace
    simp only [isSpace, Bool.not_eq_false, Bool.or_eq_true, beq_iff_eq] at hspace
    rcases hspace with ((rfl | rfl) | rfl) | rfl <;> exact absurd h (by decide)
  · rw [next?]
    all_goals
      rintro _ ⟨⟩
      exact absurd h (by decide)

end Token

/-- An integer that stands apart reads as its literal. -/
theorem Integer.readsApart (i : Integer) : Token.ReadsApart i.chars [.number i.literal] := by
  obtain ⟨c, cs, hchars, hc⟩ := i.exists_chars_eq_cons
  rw [hchars]
  refine Token.readsApart_of_next (Token.next?_of_numeral hc []).1 ?_
  intro rest hends
  have hliteral : Token.literal? (i.chars ++ rest) = some (i.literal, rest) :=
    (Token.literal?_eq_integer_iff.2 ⟨i, rfl, rfl, hends⟩).1
  rw [hchars, List.cons_append] at hliteral
  rw [List.cons_append, (Token.next?_of_numeral hc _).2, hliteral]
  rfl

end Json

end FieldRules
