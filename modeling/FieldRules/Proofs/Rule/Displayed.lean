import FieldRules.Proofs.Number.Loose
import FieldRules.Proofs.Rule.RoundTrip

/-!
# Displayed numbers read loosely

What a loose comparison makes of the text that a number is displayed with. The key facts: `Numeral.ofText?_scientific`
(a text with an exponent is read as the decimal that was written) and `RuleParam.displayed_reads_back`.
-/

namespace FieldRules

open Binary64

/-! ### Texts with an exponent -/

namespace Numeral

private theorem exponent?_sign (lead : ℤ) :
    exponent? ('e' :: ((if lead < 0 then ['-'] else ['+']) ++ Nat.toDigits 10 lead.natAbs)) = some lead := by
  have hall : (Nat.toDigits 10 lead.natAbs).all Char.isDigit := by
    rw [List.all_eq_true]
    exact fun c hc => isDigit_of_mem_toDigits hc
  have hne : Nat.toDigits 10 lead.natAbs ≠ [] := Nat.toDigits_ne_nil
  have hvalue := natOfDigits_toDigits lead.natAbs
  generalize Nat.toDigits 10 lead.natAbs = ds at *
  by_cases hneg : lead < 0
  · have habs : -|lead| = lead := by rw [abs_of_neg hneg, neg_neg]
    simp [exponent?, takeSign, hneg, hall, hne, hvalue, habs]
  · have habs : |lead| = lead := abs_of_nonneg (not_lt.1 hneg)
    simp [exponent?, takeSign, hneg, hall, hne, hvalue, habs]

/-- A text with an exponent is that of a literal with one digit before the point, and the exponent behind it. -/
private theorem exists_literal_scientific (negative : Bool) (d : Decimal) :
    ∃ n : Numeral, n.IsLiteral ∧ n.negative = negative ∧ { n with exponent := d.lead }.decimal = d ∧
      (if negative then ['-'] else []) ++ NumberStyle.scientific true (Nat.toDigits 10 d.digits) d.lead =
        n.literal ++ 'e' :: ((if d.lead < 0 then ['-'] else ['+']) ++ Nat.toDigits 10 d.lead.natAbs) := by
  have hdigits : ∀ c ∈ Nat.toDigits 10 d.digits, c.isDigit := fun c hc => isDigit_of_mem_toDigits hc
  have hvalue := natOfDigits_toDigits d.digits
  obtain ⟨first, rest, hsplit⟩ := List.exists_cons_of_ne_nil (Nat.toDigits_ne_nil (n := d.digits) (b := 10))
  have hlead : d.lead - rest.length = d.exponent := by
    rw [Decimal.lead, hsplit, List.length_cons]
    push_cast
    omega
  rw [hsplit] at hdigits hvalue ⊢
  obtain ⟨hfirst, hrest⟩ := List.forall_mem_cons.1 hdigits
  refine ⟨⟨negative, [first], rest, 0⟩, ⟨List.forall_mem_singleton.2 hfirst, hrest, rfl, by simp⟩, rfl, ?_, ?_⟩
  · simp [decimal, hvalue, hlead]
  · cases rest <;> simp [NumberStyle.scientific, literal, tail]

/-- A text with an exponent is read as the decimal that was written. -/
theorem ofText?_scientific (negative : Bool) (d : Decimal) :
    ∃ n : Numeral, n.negative = negative ∧ n.decimal = d ∧
      ofText? ((if negative then ['-'] else []) ++ NumberStyle.scientific true (Nat.toDigits 10 d.digits) d.lead) =
        some n := by
  obtain ⟨n, hliteral, hneg, hdecimal, htext⟩ := exists_literal_scientific negative d
  exact ⟨{ n with exponent := d.lead }, hneg, hdecimal, htext ▸ ofText?_literal_append hliteral (exponent?_sign d.lead)⟩

end Numeral

/-! ### The text of a number -/

namespace NumberStyle

private theorem not_isPadding_of_isNumberChar {c : Char} (h : isNumberChar c) : ¬ Loose.isPadding c :=
  Text.of_ascii (p := fun c => isNumberChar c → ¬ Loose.isPadding c) (by decide) (toNat_lt_of_isNumberChar h) h

/-- There is nothing to trim from the text of a number. -/
private theorem trim_render (x : Binary64) :
    Text.trim Loose.isPadding (display.render x).toList = (display.render x).toList :=
  Text.trim_of_forall_not fun c hc => not_isPadding_of_isNumberChar (List.all_eq_true.1 (all_render x) c hc)

end NumberStyle

/-- A text with an exponent is read as the double nearest to its decimal. -/
private theorem Loose.ofTrimmed_scientific (negative : Bool) (d : Decimal) :
    ofTrimmed ((if negative then ['-'] else []) ++ NumberStyle.scientific true (Nat.toDigits 10 d.digits) d.lead) =
      ofDecimal negative d := by
  have hletters : ∀ c ∈ (if negative then ['-'] else []) ++
      NumberStyle.scientific true (Nat.toDigits 10 d.digits) d.lead, c.isAlpha → c = 'e' := by
    obtain ⟨n, hliteral, -, -, htext⟩ := Numeral.exists_literal_scientific negative d
    intro c hc hletter
    rw [htext, List.mem_append, List.mem_cons, List.mem_append] at hc
    rcases hc with hc | rfl | hc | hc
    · exact absurd hletter ((Numeral.numericText_literal hliteral).ascii hc).2
    · rfl
    · split at hc <;> obtain rfl := List.mem_singleton.1 hc <;> exact absurd hletter (by decide)
    · exact absurd hletter (Numeral.not_isAlpha_of_isDigit (isDigit_of_mem_toDigits hc))
  obtain ⟨n, hneg, hdecimal, hread⟩ := Numeral.ofText?_scientific negative d
  rw [ofTrimmed_of_letters (by simp [NumberStyle.scientific]) hletters, hread, Option.map_some, Option.getD_some,
    Numeral.toBinary64_eq, hneg, hdecimal]

/-! ### Numbers and their texts -/

namespace RuleParam

/-- The text of a number is read as this number by a loose comparison. -/
private theorem loose_display (x : Binary64) :
    (text (number x).display).loose = if x.isZero then zero false else x := by
  have htrim : (text (number x).display).loose = Loose.ofTrimmed (NumberStyle.display.render x).toList := by
    rw [loose, display, NumberStyle.trim_render]
  rw [htrim]
  by_cases hplain : x.IsPlain
  · obtain ⟨n, hn, hvalue⟩ := NumberStyle.ofLiteral?_render hplain
    obtain ⟨hliteral, htext⟩ := Numeral.ofLiteral?_eq_some_iff.1 hn
    rw [htext, Loose.ofTrimmed_literal hliteral, hvalue]
  · cases x with
    | nan => rfl
    | infinity negative => cases negative <;> rfl
    | finite negative rank =>
      have h0 : rank.val ≠ 0 := fun h0 => hplain (isPlain_finite_iff.2 (.inl h0))
      rw [NumberStyle.toList_render_of_not_isPlain hplain, Loose.ofTrimmed_scientific, ofDecimal_eq_ofRank,
        Decimal.rankOf_shortest .up rank.isLt]
      simp [isZero, h0, ofRank]

/-- The text that a number is displayed with is read as the number again by a loose comparison, NaN and the infinities
included; only a zero loses its sign. As a parameter it is read as a number exactly when the number is plain, that is
finite, and zero or of a magnitude from `1e-6` up to but not including `1e21`; and then as the same one. -/
theorem displayed_reads_back (x : Binary64) :
    (text (number x).display).loose = (if x.isZero then zero false else x) ∧
    ((∃ y, ofRaw (number x).display = number y) ↔ x.IsPlain) ∧
    (x.IsPlain → ofRaw (number x).display = number (text (number x).display).loose) := by
  have hraw : ofRaw (number x).display = (number x).reread := ofRaw_display (by simp)
  rw [loose_display, hraw]
  refine ⟨rfl, ?_, reread_of_isPlain⟩
  constructor
  · rintro ⟨y, hy⟩
    by_contra hplain
    rw [reread_of_not_isPlain hplain] at hy
    cases hy
  · exact fun hplain => ⟨_, reread_of_isPlain hplain⟩

end RuleParam

end FieldRules
