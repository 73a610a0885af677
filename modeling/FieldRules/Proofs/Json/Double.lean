import FieldRules.Proofs.Json.Integer
import FieldRules.Proofs.Number.Radix
import FieldRules.Proofs.Number.Shortest

/-!
# Doubles in JSON

A finite double is written as one number literal, and that literal is within the range of what is read. The key facts:
`Literal.readsApart` (the text of a literal reads as the literal), `Literal.number?_isSome` (a literal of at most
seventeen digits that is no greater than the greatest double is in range) and `exists_literal_render` (so are the
literals that doubles are written as).
-/

namespace FieldRules

open Binary64

namespace Json

/-! ### The text of a literal -/

namespace Literal

/-- Digits where a number literal has them, and no zero before others. -/
structure WellFormed (l : Literal) : Prop where
  canonical : l.whole = ['0'] ∨ ∃ c rest, l.whole = c :: rest ∧ c ≠ '0'
  isDigit_whole : ∀ c ∈ l.whole, c.isDigit
  isDigit_fraction : ∀ c ∈ l.fraction, c.isDigit
  isDigit_exponent : ∀ e ∈ l.exponent, e.2 ≠ [] ∧ ∀ c ∈ e.2, c.isDigit

/-- The exponent part, if there is one, with its sign. -/
def exponentChars : Option (Bool × List Char) → List Char
  | none => []
  | some (negative, digits) => 'e' :: (if negative then '-' else '+') :: digits

/-- What a literal is made of behind its sign. -/
def body (l : Literal) : List Char := l.whole ++ (Numeral.tail l.fraction ++ exponentChars l.exponent)

def chars (l : Literal) : List Char := (if l.negative then ['-'] else []) ++ l.body

end Literal

namespace Token

private theorem exponent?_chars {e : Option (Bool × List Char)} (h : ∀ p ∈ e, p.2 ≠ [] ∧ ∀ c ∈ p.2, c.isDigit)
    {rest : List Char} (hends : EndsNumber rest) : exponent? (Literal.exponentChars e ++ rest) = some (e, rest) := by
  obtain ⟨hdigit, -, hletter⟩ := endsNumber_iff.1 hends
  cases e with
  | none => exact exponent?_eq_none_iff.2 ⟨rfl, hletter⟩
  | some p =>
    obtain ⟨negative, digits⟩ := p
    obtain ⟨hne, hdigits⟩ := h _ rfl
    have hread : digits? (digits ++ rest) = some (digits, rest) := digits?_eq_some_iff.2 ⟨hne, hdigits, rfl, hdigit⟩
    cases negative <;> simp [Literal.exponentChars, exponent?, hread]

/-- An exponent part begins with its letter, or with what ends a number. -/
private theorem head?_exponentChars {e : Option (Bool × List Char)} {rest : List Char} (hends : EndsNumber rest)
    {c : Char} (hc : (Literal.exponentChars e ++ rest).head? = some c) : c.isDigit = false ∧ c ≠ '.' := by
  obtain ⟨hdigit, hpoint, -⟩ := endsNumber_iff.1 hends
  cases e with
  | none => exact ⟨hdigit c hc, hpoint c hc⟩
  | some p =>
    obtain rfl : 'e' = c := Option.some.inj hc
    decide

private theorem fraction?_tail {fraction : List Char} (h : ∀ c ∈ fraction, c.isDigit) {rest : List Char}
    (hrest : ∀ c, rest.head? = some c → c.isDigit = false ∧ c ≠ '.') :
    fraction? (Numeral.tail fraction ++ rest) = some (fraction, rest) := by
  unfold Numeral.tail
  split
  · rename_i hnil
    subst hnil
    exact fraction?_eq_nil_iff.2 ⟨rfl, fun c hc => (hrest c hc).2⟩
  · rename_i hne
    rw [List.cons_append, fraction?, digits?_eq_some_iff]
    exact ⟨hne, h, rfl, fun c hc => (hrest c hc).1⟩

private theorem unsigned?_body {l : Literal} (h : l.WellFormed) {rest : List Char} (hends : EndsNumber rest) :
    unsigned? l.negative (l.body ++ rest) = some (l, rest) := by
  have hexponent := exponent?_chars h.isDigit_exponent hends
  have hfraction := fraction?_tail h.isDigit_fraction fun c => head?_exponentChars (e := l.exponent) hends
  have hwhole : whole? (l.body ++ rest) =
      some (l.whole, Numeral.tail l.fraction ++ (Literal.exponentChars l.exponent ++ rest)) := by
    refine whole?_eq_some_iff.2 ⟨h.canonical, h.isDigit_whole, by simp [Literal.body], ?_⟩
    intro c hc
    unfold Numeral.tail at hc
    split at hc
    · exact (head?_exponentChars hends hc).1
    · obtain rfl : '.' = c := Option.some.inj hc
      decide
  simp only [unsigned?, hwhole, hfraction, hexponent, Option.bind_eq_bind, Option.bind_some, Option.pure_def]

end Token

namespace Literal

private theorem exists_body_eq_cons {l : Literal} (h : l.WellFormed) : ∃ c cs, l.body = c :: cs ∧ c.isDigit := by
  have hdigits := h.isDigit_whole
  unfold body
  rcases h.canonical with hwhole | ⟨c, cs, hwhole, -⟩
  · exact ⟨'0', _, by rw [hwhole]; rfl, by decide⟩
  · rw [hwhole] at hdigits ⊢
    exact ⟨c, _, rfl, hdigits c List.mem_cons_self⟩

private theorem literal?_chars {l : Literal} (h : l.WellFormed) {rest : List Char} (hends : Token.EndsNumber rest) :
    Token.literal? (l.chars ++ rest) = some (l, rest) := by
  have hunsigned := Token.unsigned?_body h hends
  unfold chars
  cases hsign : l.negative with
  | true =>
    rw [hsign] at hunsigned
    exact (Token.literal?_minus _).trans hunsigned
  | false =>
    rw [hsign] at hunsigned
    refine (Token.literal?_of_no_minus ?_).trans hunsigned
    obtain ⟨c, cs, hbody, hc⟩ := exists_body_eq_cons h
    rw [hbody]
    rintro ⟨⟩
    exact absurd hc (by decide)

/-- A literal that stands apart is read as it is. -/
theorem readsApart {l : Literal} (h : l.WellFormed) : Token.ReadsApart l.chars [.number l] := by
  obtain ⟨c, cs, hchars, hc⟩ : ∃ c cs, l.chars = c :: cs ∧ (c = '-' ∨ c.isDigit) := by
    obtain ⟨c, cs, hbody, hc⟩ := exists_body_eq_cons h
    unfold chars
    cases l.negative with
    | true => exact ⟨'-', l.body, rfl, .inl rfl⟩
    | false => exact ⟨c, cs, hbody, .inr hc⟩
  rw [hchars]
  refine Token.readsApart_of_next (Token.next?_of_numeral hc []).1 ?_
  intro rest hends
  have hliteral := literal?_chars h hends
  rw [hchars, List.cons_append] at hliteral
  rw [List.cons_append, (Token.next?_of_numeral hc _).2, hliteral]
  rfl

/-! ### The range of what is read -/

/-- The exponent of a literal. -/
def exponentValue : Option (Bool × List Char) → ℤ
  | none => 0
  | some (negative, digits) => if negative then -(natOfDigits digits : ℤ) else natOfDigits digits

/-- The decimal that a literal stands for. -/
def decimal (l : Literal) : Decimal :=
  ⟨natOfDigits (l.whole ++ l.fraction), exponentValue l.exponent - l.fraction.length⟩

/-- The rank of the product of two whole numbers that are rounded first. -/
private def productRank (m n : Nat) : Nat := nearestRank (units (wholeRank m) * units (wholeRank n)) stepsOfOne

private theorem productRank_mono {m m' n n' : Nat} (hm : m ≤ m') (hn : n ≤ n') :
    productRank m n ≤ productRank m' n' := by
  refine nearestRank_mono stepsOfOne_pos stepsOfOne_pos (Nat.mul_le_mul_right _ (Nat.mul_le_mul ?_ ?_))
  · exact units_le_iff.2 (wholeRank_mono hm)
  · exact units_le_iff.2 (wholeRank_mono hn)

private theorem isFinite_mul {m n : Nat} (hm : wholeRank m < top) (hn : wholeRank n < top)
    (h : productRank m n < top) : ((Binary64.ofNat m).mul (Binary64.ofNat n)).isFinite := by
  rw [ofNat_eq, ofNat_eq, ofRank, ofRank, dif_pos hm, dif_pos hn]
  exact isFinite_ofRank.2 h

/-- The largest significands that the largest powers of ten are multiplied with. -/
private theorem productRank_table :
    ∀ j < 17, productRank (Decimal.greatest.digits / 10 ^ j) (10 ^ (292 + j)) < top := by
  decide +kernel

private theorem productRank_lt_top {m e : Nat} (hm : m ≤ 10 ^ 17) (hpos : 0 < m)
    (h : m * 10 ^ e ≤ Decimal.greatest.digits * 10 ^ 292) : e ≤ 308 ∧ productRank m (10 ^ e) < top := by
  by_cases hsmall : e ≤ 291
  · have hlarge : productRank (10 ^ 17) (10 ^ 291) < top := by decide +kernel
    exact ⟨by omega, lt_of_le_of_lt (productRank_mono hm (Nat.pow_le_pow_right (by decide) hsmall)) hlarge⟩
  · obtain ⟨j, rfl⟩ : ∃ j, e = 292 + j := ⟨e - 292, by omega⟩
    have hscaled : m * 10 ^ j ≤ Decimal.greatest.digits := by
      refine Nat.le_of_mul_le_mul_right ?_ (Nat.pow_pos (n := 292) (show 0 < 10 by decide))
      rwa [Nat.mul_assoc, ← Nat.pow_add, Nat.add_comm j]
    have hj : j < 17 := by
      by_contra hlarge
      have hpow : 10 ^ 17 ≤ 10 ^ j := Nat.pow_le_pow_right (by decide) (not_lt.1 hlarge)
      have hle : 1 * 10 ^ 17 ≤ m * 10 ^ j := Nat.mul_le_mul hpos hpow
      exact absurd (le_trans hle hscaled) (by decide)
    have hdiv : m ≤ Decimal.greatest.digits / 10 ^ j := (Nat.le_div_iff_mul_le (Nat.pow_pos (by decide))).2 hscaled
    exact ⟨by omega, lt_of_le_of_lt (productRank_mono hdiv le_rfl) (productRank_table j hj)⟩

/-- A significand of at most seventeen digits may be scaled up to the greatest double. -/
private theorem scale?_isSome {significand : Nat} {e : ℤ} (h : significand ≤ 10 ^ 17)
    (hvalue : (significand * 10 ^ e : ℚ) ≤ Decimal.greatest.value) : (scale? significand e).isSome := by
  cases e with
  | negSucc e => rfl
  | ofNat e =>
    by_cases h0 : significand = 0
    · simp [scale?, h0]
    · have hnat : significand * 10 ^ e ≤ Decimal.greatest.digits * 10 ^ 292 := by
        have hcast : ((significand * 10 ^ e : Nat) : ℚ) ≤ ((Decimal.greatest.digits * 10 ^ 292 : Nat) : ℚ) := by
          push_cast
          exact hvalue
        exact_mod_cast hcast
      obtain ⟨he, hproduct⟩ := productRank_lt_top h (Nat.pos_of_ne_zero h0) hnat
      have hsignificand : wholeRank significand < top := lt_of_le_of_lt (wholeRank_mono h) (by decide +kernel)
      have hpower : wholeRank (10 ^ e) < top :=
        lt_of_le_of_lt (wholeRank_mono (Nat.pow_le_pow_right (by decide) he)) (by decide +kernel)
      simp [scale?, powerOfTen, h0, he, isFinite_mul hsignificand hpower hproduct]

/-- A literal of at most seventeen digits that is no greater than the greatest double is in range. -/
theorem number?_isSome {l : Literal} (hdigits : l.decimal.digits ≤ 10 ^ 17)
    (hvalue : l.decimal.value ≤ Decimal.greatest.value)
    (hexponent : ∀ e ∈ l.exponent, natOfDigits e.2 < UInt32.size / 2) : l.number?.isSome := by
  have hscale := scale?_isSome hdigits hvalue
  obtain ⟨digits, hl⟩ : ∃ digits, l.decimal.digits = digits := ⟨_, rfl⟩
  have happend : digits = Nat.ofDigitChars 10 l.fraction (natOfDigits l.whole) := by
    rw [← hl, decimal, natOfDigits_eq, natOfDigits_eq, Nat.ofDigitChars_append]
  have hsize : digits < UInt64.size := lt_of_le_of_lt (hl ▸ hdigits) (by decide)
  -- all digits are taken in
  have hwhole : absorb 0 l.whole = (natOfDigits l.whole, []) := by
    rw [natOfDigits_eq]
    refine Integer.absorb_of_lt ?_
    rw [← natOfDigits_eq]
    exact lt_of_le_of_lt (happend ▸ Integer.le_ofDigitChars _ _) hsize
  have hfraction : absorb (natOfDigits l.whole) l.fraction = (digits, []) := by
    rw [Integer.absorb_of_lt (happend ▸ hsize), ← happend]
  rw [hl] at hscale
  simp only [number?, hwhole, hfraction, List.length_nil, Nat.sub_zero]
  cases hexp : l.exponent with
  | none =>
    have hshift : l.decimal.exponent = ((0 : Nat) : ℤ) - (l.fraction.length : ℤ) := by
      simp [decimal, exponentValue, hexp]
    rw [hshift] at hscale
    dsimp only
    split
    · split
      · rfl
      · split <;> rfl
    · rw [Option.isSome_map]
      exact hscale
  | some e =>
    obtain ⟨negative, ds⟩ := e
    have hshift : l.decimal.exponent = ((0 : Nat) : ℤ) - (l.fraction.length : ℤ) +
        if negative then -(natOfDigits ds : ℤ) else natOfDigits ds := by
      simp only [decimal, exponentValue, hexp]
      split <;> omega
    have hlt : ¬ UInt32.size / 2 ≤ natOfDigits ds := not_le.2 (hexponent _ hexp)
    rw [hshift] at hscale
    simp only [hlt, if_false]
    rw [Option.isSome_map]
    exact hscale

end Literal

end Json

namespace NumberStyle

open Json

/-! ### Doubles as literals -/

private theorem isDigit_of_mem_replicate {m : Nat} : ∀ c ∈ List.replicate m '0', c.isDigit := by
  intro c hc
  rw [List.eq_of_mem_replicate hc]
  rfl

/-- Positional text with few digits is the text of a literal with few digits. -/
private theorem exists_literal_pointed {d : Decimal} (h0 : d.digits ≠ 0) (hdigits : d.digits ≤ 10 ^ 17)
    (hlead : d.lead ≤ 15) (negative : Bool) :
    ∃ l : Literal, l.WellFormed ∧ l.exponent = none ∧ l.decimal.digits ≤ 10 ^ 17 ∧
      l.chars = (if negative then ['-'] else []) ++ positional true (Nat.toDigits 10 d.digits) d.lead := by
  obtain ⟨c, rest, hcons, hc⟩ := exists_toDigits_eq_cons h0
  have hall : ∀ c ∈ Nat.toDigits 10 d.digits, c.isDigit := fun c hc => isDigit_of_mem_toDigits hc
  have hnat := natOfDigits_toDigits d.digits
  obtain ⟨sign, hsign⟩ : ∃ sign, (if negative then ['-'] else []) = sign := ⟨_, rfl⟩
  have hzero : ∀ c ∈ ['0'], c.isDigit := List.forall_mem_singleton.2 rfl
  rw [hsign]
  unfold positional
  generalize Nat.toDigits 10 d.digits = ds at *
  split
  · -- all digits stand behind the point, after zeros
    obtain ⟨m, hm⟩ : ∃ m, (-d.lead).toNat - 1 = m := ⟨_, rfl⟩
    refine ⟨⟨negative, ['0'], List.replicate m '0' ++ ds, none⟩, ⟨.inl rfl, hzero, ?_, by simp⟩, rfl, ?_, ?_⟩
    · intro c hc
      exact (List.mem_append.1 hc).elim (isDigit_of_mem_replicate c) (hall c)
    · simp only [Literal.decimal, List.singleton_append, natOfDigits_zero_cons, natOfDigits_zeros_append, hnat]
      exact hdigits
    · simp [Literal.chars, Literal.body, Literal.exponentChars, Numeral.tail, hm, hsign, hcons]
  · obtain ⟨whole, hwhole⟩ : ∃ whole, d.lead.toNat + 1 = whole := ⟨_, rfl⟩
    simp only [hwhole]
    split
    · -- all digits stand before the point, with zeros after them
      rename_i hle
      obtain ⟨m, hm⟩ : ∃ m, whole - ds.length = m := ⟨_, rfl⟩
      have hdigit : ∀ c ∈ ds ++ List.replicate m '0', c.isDigit := by
        intro c hc
        exact (List.mem_append.1 hc).elim (hall c) (isDigit_of_mem_replicate c)
      refine ⟨⟨negative, ds ++ List.replicate m '0', ['0'], none⟩,
        ⟨.inr ⟨c, rest ++ List.replicate m '0', by rw [hcons]; rfl, hc⟩, hdigit, hzero, by simp⟩, rfl, ?_, ?_⟩
      · have hall : ∀ c ∈ ds ++ List.replicate m '0' ++ ['0'], c.isDigit := List.forall_mem_append.2 ⟨hdigit, hzero⟩
        refine le_trans (natOfDigits_lt hall).le (Nat.pow_le_pow_right (by decide) ?_)
        simp only [List.length_append, List.length_replicate, List.length_singleton]
        omega
      · simp [Literal.chars, Literal.body, Literal.exponentChars, Numeral.tail, hm, hsign]
    · rename_i hgt
      have hdrop : ds.drop whole ≠ [] := by
        rw [ne_eq, List.drop_eq_nil_iff]
        exact hgt
      refine ⟨⟨negative, ds.take whole, ds.drop whole, none⟩,
        ⟨.inr ⟨c, rest.take d.lead.toNat, by rw [hcons, ← hwhole]; rfl, hc⟩, ?_, ?_, by simp⟩, rfl, ?_, ?_⟩
      · exact fun c hc => hall c (List.mem_of_mem_take hc)
      · exact fun c hc => hall c (List.mem_of_mem_drop hc)
      · simp only [Literal.decimal, List.take_append_drop, hnat]
        exact hdigits
      · simp [Literal.chars, Literal.body, Literal.exponentChars, Numeral.tail, hdrop, hsign]

/-- Text with an exponent is the text of a literal of the same value. -/
private theorem exists_literal_scientific {d : Decimal} (h0 : d.digits ≠ 0) (negative : Bool) :
    ∃ l : Literal, l.WellFormed ∧ l.exponent = some (decide (d.lead < 0), Nat.toDigits 10 d.lead.natAbs) ∧
      l.decimal = d ∧ l.chars = (if negative then ['-'] else []) ++ scientific true (Nat.toDigits 10 d.digits) d.lead := by
  obtain ⟨c, rest, hcons, hc⟩ := exists_toDigits_eq_cons h0
  have hall : ∀ c ∈ Nat.toDigits 10 d.digits, c.isDigit := fun c hc => isDigit_of_mem_toDigits hc
  have hnat := natOfDigits_toDigits d.digits
  have hlead : d.lead - rest.length = d.exponent := by
    rw [Decimal.lead, hcons, List.length_cons]
    push_cast
    omega
  rw [hcons] at hall hnat ⊢
  obtain ⟨hfirst, hrest⟩ := List.forall_mem_cons.1 hall
  refine ⟨⟨negative, [c], rest, some (decide (d.lead < 0), Nat.toDigits 10 d.lead.natAbs)⟩,
    ⟨.inr ⟨c, [], rfl, hc⟩, ?_, hrest, ?_⟩, rfl, ?_, ?_⟩
  · exact List.forall_mem_singleton.2 hfirst
  · rintro e ⟨⟩
    exact ⟨Nat.toDigits_ne_nil, fun c hc => isDigit_of_mem_toDigits hc⟩
  · have hexponent : Literal.exponentValue (some (decide (d.lead < 0), Nat.toDigits 10 d.lead.natAbs)) = d.lead := by
      simp only [Literal.exponentValue, natOfDigits_toDigits, decide_eq_true_eq]
      split <;> omega
    simp only [Literal.decimal, List.singleton_append, hnat, hexponent, hlead]
  · cases rest <;> by_cases hneg : d.lead < 0 <;>
      simp [Literal.chars, Literal.body, Literal.exponentChars, Numeral.tail, scientific, hneg]

private theorem magnitude_json (d : Decimal) :
    json.magnitude d =
      if -5 ≤ d.lead ∧ d.lead ≤ 15 then positional true (Nat.toDigits 10 d.digits) d.lead
      else scientific true (Nat.toDigits 10 d.digits) d.lead := rfl

/-- A finite double is written as one literal, which is in range. -/
theorem exists_literal_render (negative : Bool) (rank : Fin top) :
    ∃ l : Literal, l.WellFormed ∧ l.number?.isSome ∧ (json.render (finite negative rank)).toList = l.chars := by
  have hrender : (json.render (finite negative rank)).toList =
      (if negative then ['-'] else []) ++ json.magnitude (Decimal.shortest .even rank) := by
    simp [render, json]
  rw [hrender]
  by_cases h0 : rank.val = 0
  · have hshortest : Decimal.shortest .even 0 = ⟨0, 0⟩ := by decide
    have hzero : ∀ c ∈ ['0'], c.isDigit := List.forall_mem_singleton.2 rfl
    have hdigits : natOfDigits ['0', '0'] = 0 := by decide
    rw [h0, hshortest]
    refine ⟨⟨negative, ['0'], ['0'], none⟩, ⟨.inl rfl, hzero, hzero, by simp⟩, ?_, ?_⟩
    · refine Literal.number?_isSome ?_ ?_ (by simp)
      · simp [Literal.decimal, hdigits]
      · refine le_trans ?_ Decimal.ten_pow_le_greatest
        simp [Literal.decimal, Decimal.value, hdigits]
    · cases negative <;> decide
  · have hdigits := Decimal.digits_shortest_le .even rank.val
    have hnonzero := Decimal.digits_shortest_ne_zero .even rank.isLt h0
    rw [magnitude_json]
    by_cases hplaces : -5 ≤ (Decimal.shortest .even rank).lead ∧ (Decimal.shortest .even rank).lead ≤ 15
    · obtain ⟨l, hwell, hnone, hfew, htext⟩ := exists_literal_pointed hnonzero hdigits hplaces.2 negative
      rw [if_pos hplaces]
      refine ⟨l, hwell, Literal.number?_isSome hfew ?_ (by simp [hnone]), htext.symm⟩
      have hexponent : l.decimal.exponent ≤ 0 := by
        simp [Literal.decimal, Literal.exponentValue, hnone]
      calc l.decimal.value ≤ (l.decimal.digits : ℚ) * 10 ^ (0 : ℤ) := by
            rw [Decimal.value]
            gcongr
            norm_num
        _ ≤ 10 ^ 17 := by
            rw [zpow_zero, mul_one]
            exact_mod_cast hfew
        _ ≤ Decimal.greatest.value := Decimal.ten_pow_le_greatest
    · obtain ⟨l, hwell, hexponent, hdecimal, htext⟩ := exists_literal_scientific hnonzero negative
      obtain ⟨hlow, hhigh⟩ := Decimal.lead_shortest_bounds rank.isLt h0
      rw [if_neg hplaces]
      rw [← hdecimal] at hdigits
      refine ⟨l, hwell, Literal.number?_isSome hdigits ?_ ?_, htext.symm⟩
      · rw [hdecimal]
        exact Decimal.value_shortest_le rank.isLt
      · rw [hexponent]
        rintro e ⟨⟩
        rw [natOfDigits_toDigits]
        exact lt_of_le_of_lt (show _ ≤ 400 by omega) (by decide)

end NumberStyle

end FieldRules
