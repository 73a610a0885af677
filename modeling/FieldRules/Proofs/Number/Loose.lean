import FieldRules.Number.Loose
import FieldRules.Proofs.Rule.Grammar

/-!
# Loose reading of literals

What a loosely typed comparison makes of a plain literal. The key facts: `Loose.ofTrimmed_literal` (it reads the number of
the literal) and `RuleParam.loose_padded` (also when the literal stands between blanks).
-/

namespace FieldRules

namespace Text

/-- Trimming takes away what stands around a text without characters of the class. -/
private theorem trim_padded {p : Char → Bool} {before cs after : List Char} (hbefore : ∀ c ∈ before, p c)
    (hafter : ∀ c ∈ after, p c) (h : ∀ c ∈ cs, ¬ p c) : trim p (before ++ cs ++ after) = cs := by
  have hreverse : trimEnd p (cs ++ after) = cs := by
    have hback : (cs.reverse).dropWhile p = cs.reverse := by
      rw [List.dropWhile_eq_self_iff]
      intro hlength
      exact h _ (List.mem_reverse.1 (List.getElem_mem hlength))
    have hpadding : ∀ c ∈ after.reverse, p c := fun c hc => hafter c (List.mem_reverse.1 hc)
    rw [trimEnd, List.reverse_append, List.dropWhile_append_of_pos hpadding, hback, List.reverse_reverse]
  rw [trim, List.append_assoc, List.dropWhile_append_of_pos hbefore]
  cases cs with
  | nil =>
    have hempty : after.dropWhile p = [] := List.dropWhile_eq_nil_iff.2 hafter
    rw [List.nil_append, hempty]
    rfl
  | cons c rest =>
    have hfirst : ¬ p c := h c List.mem_cons_self
    rw [List.cons_append, List.dropWhile_cons_of_neg hfirst, ← List.cons_append, hreverse]

theorem trim_of_forall_not {p : Char → Bool} {cs : List Char} (h : ∀ c ∈ cs, ¬ p c) : trim p cs = cs := by
  have hempty : ∀ c ∈ [], p c := by simp
  simpa using trim_padded hempty hempty h

end Text

namespace Loose

/-- A text without letters, but for that of an exponent, is neither a word for an infinity nor written in another
base. -/
theorem ofTrimmed_of_letters {cs : List Char} (hne : cs ≠ []) (h : ∀ c ∈ cs, c.isAlpha → c = 'e') :
    ofTrimmed cs = ((Numeral.ofText? cs).map Numeral.toBinary64).getD .nan := by
  have hletter {c : Char} (hc : c.isAlpha) (hother : c ≠ 'e') : c ∉ cs := fun hmem => hother (h c hmem hc)
  unfold ofTrimmed
  split
  · exact absurd rfl hne
  · exact absurd (by simp) (hletter (c := 'x') (by decide) (by decide))
  · exact absurd (by simp) (hletter (c := 'X') (by decide) (by decide))
  · exact absurd (by simp) (hletter (c := 'o') (by decide) (by decide))
  · exact absurd (by simp) (hletter (c := 'O') (by decide) (by decide))
  · exact absurd (by simp) (hletter (c := 'b') (by decide) (by decide))
  · exact absurd (by simp) (hletter (c := 'B') (by decide) (by decide))
  · have hword : ¬ (cs = "Infinity".toList ∨ cs = "+Infinity".toList) := by
      rintro (rfl | rfl) <;> exact absurd (by simp) (hletter (c := 'I') (by decide) (by decide))
    have hminus : cs ≠ "-Infinity".toList := by
      rintro rfl
      exact absurd (by simp) (hletter (c := 'I') (by decide) (by decide))
    rw [if_neg hword, if_neg hminus]

theorem ofTrimmed_literal {n : Numeral} (h : n.IsLiteral) : ofTrimmed n.literal = n.toBinary64 := by
  have htext := Numeral.numericText_literal h
  rw [ofTrimmed_of_letters htext.ne_nil fun c hc hletter => absurd hletter (htext.ascii hc).2,
    Numeral.ofText?_literal h]
  rfl

theorem not_isPadding_of_numericText {cs : List Char} (h : Numeral.NumericText cs) {c : Char} (hc : c ∈ cs) :
    ¬ isPadding c := by
  rcases h.mem hc with hdigit | rfl | rfl
  · exact Text.of_ascii (p := fun c => c.isDigit → ¬ isPadding c) (by decide) (h.ascii hc).1 hdigit
  · decide
  · decide

end Loose

/-- Blanks around a literal do not change the number that it is read as. -/
theorem RuleParam.loose_padded {raw before after : String} (hraw : isNumeric raw)
    (hbefore : ∀ c ∈ before.toList, Loose.isPadding c) (hafter : ∀ c ∈ after.toList, Loose.isPadding c) :
    ∃ x, ofRaw raw = number x ∧ (text (before ++ raw ++ after)).loose = x := by
  obtain ⟨n, hn⟩ := Option.isSome_iff_exists.1 hraw
  obtain ⟨hliteral, htext⟩ := Numeral.ofLiteral?_eq_some_iff.1 hn
  have hplain : ∀ c ∈ raw.toList, ¬ Loose.isPadding c := fun c hc =>
    Loose.not_isPadding_of_numericText (isNumeric_iff.1 hraw) hc
  refine ⟨n.toBinary64, ofRaw_of_literal hn, ?_⟩
  rw [loose, String.toList_append, String.toList_append, Text.trim_padded hbefore hafter hplain, htext,
    Loose.ofTrimmed_literal hliteral]

end FieldRules
