import FieldRules.Proofs.Number.Loose
import FieldRules.Proofs.Rule.BuiltIn
import FieldRules.Proofs.Text.Units

/-!
# Bounds of lengths

How `digits_between` reads and compares its bounds. The key facts: `BuiltIn.digitsBetween_padded` (blanks around a
literal make no difference beside a number) and `BuiltIn.textBounds_ordered` (two texts are compared in the order of
their UTF-16 units).
-/

namespace FieldRules.BuiltIn

/-- Two calls of `digits_between` come to the same: both answer alike, or each has its own bounds rejected. -/
inductive SameOutcome (field : Field) (min max min' max' : RuleParam) : Prop
  | answered (answer : Bool) :
      digitsBetween field [min, max] = .ok answer → digitsBetween field [min', max'] = .ok answer →
        SameOutcome field min max min' max'
  | rejected :
      digitsBetween field [min, max] = .error (boundsFault field.name min max) →
      digitsBetween field [min', max'] = .error (boundsFault field.name min' max') →
        SameOutcome field min max min' max'

/-- What counts of the bounds is how they compare and which numbers they are read as. -/
private theorem sameOutcome_of_loose {field : Field} {min max min' max' : RuleParam} (hmin : min.loose = min'.loose)
    (hmax : max.loose = max'.loose) (hgreater : looselyGreater min max = looselyGreater min' max') :
    SameOutcome field min max min' max' := by
  cases hcompare : looselyGreater min max with
  | true =>
    refine .rejected ?_ ?_
    · rw [digitsBetween_pair, if_pos hcompare]
    · rw [digitsBetween_pair, if_pos (hgreater ▸ hcompare)]
  | false =>
    have hordered : ¬ looselyGreater min max := by simp [hcompare]
    have hanswer := digitsBetween_pair field min' max'
    rw [if_neg (hgreater ▸ hordered)] at hanswer
    refine .answered _ ?_ hanswer
    rw [digitsBetween_pair, if_neg hordered, hmin, hmax]

/-- Beside a number, a text bound counts for the number that it is read as. -/
private theorem looselyGreater_number_text (x : Binary64) (s : String) :
    looselyGreater (.number x) (.text s) = looselyGreater (.number x) (.number (RuleParam.text s).loose) := rfl

private theorem looselyGreater_text_number (s : String) (x : Binary64) :
    looselyGreater (.text s) (.number x) = looselyGreater (.number (RuleParam.text s).loose) (.number x) := rfl

/-- Blanks around a literal make no difference to a call with a number beside it: it has the outcome of the call with the
number of the literal. -/
theorem digitsBetween_padded {literal before after : String} (hliteral : RuleParam.isNumeric literal)
    (hbefore : ∀ c ∈ before.toList, Loose.isPadding c) (hafter : ∀ c ∈ after.toList, Loose.isPadding c) :
    ∃ y, RuleParam.ofRaw literal = .number y ∧ ∀ (field : Field) (x : Binary64),
      SameOutcome field (.number x) (.text (before ++ literal ++ after)) (.number x) (.number y) ∧
        SameOutcome field (.text (before ++ literal ++ after)) (.number x) (.number y) (.number x) := by
  obtain ⟨y, hread, hloose⟩ := RuleParam.loose_padded hliteral hbefore hafter
  refine ⟨y, hread, fun field x => ⟨?_, ?_⟩⟩
  · exact sameOutcome_of_loose rfl hloose (by rw [looselyGreater_number_text, hloose])
  · exact sameOutcome_of_loose hloose rfl (by rw [looselyGreater_text_number, hloose])

theorem digitsBetween_padded_minus_half :
    let before := "\t "
    let after := "\u3000"
    RuleParam.isNumeric "-.5" ∧ (∀ c ∈ before.toList, Loose.isPadding c) ∧
      (∀ c ∈ after.toList, Loose.isPadding c) ∧
      SameOutcome (.text "pin" "12") (.text (before ++ "-.5" ++ after)) (.number (.ofNat 3))
        (RuleParam.ofRaw "-.5") (.number (.ofNat 3)) := by
  intro before after
  have hliteral : RuleParam.isNumeric "-.5" := by decide
  have hbefore : ∀ c ∈ before.toList, Loose.isPadding c := List.all_eq_true.1 (by decide)
  have hafter : ∀ c ∈ after.toList, Loose.isPadding c := List.all_eq_true.1 (by decide)
  obtain ⟨y, hread, hsame⟩ := digitsBetween_padded hliteral hbefore hafter
  refine ⟨hliteral, hbefore, hafter, ?_⟩
  rw [hread]
  exact (hsame (.text "pin" "12") (.ofNat 3)).2

/-! ### Texts as bounds -/

/-- Two texts are rejected as bounds because the lower one is greater. -/
def Rejects (field : Field) (low high : String) : Prop :=
  digitsBetween field [.text low, .text high] = .error (boundsFault field.name (.text low) (.text high))

/-- Texts are rejected by the order of their units alone. -/
private theorem rejects_iff {field : Field} {low high : String} :
    Rejects field low high ↔ Text.units16 high < Text.units16 low := by
  have hgreater : looselyGreater (.text low) (.text high) ↔ Text.units16 high < Text.units16 low := decide_eq_true_iff
  rw [← hgreater, Rejects, digitsBetween_pair]
  split
  · rename_i hrejected
    simp [hrejected]
  · rename_i hordered
    simp [hordered]

/-- Whether two texts are rejected as bounds does not depend on the field. It is a strict total order of all texts, the
lexicographic one of their UTF-16 units. It agrees with the order of characters, except for texts that first differ in a
character above U+FFFF and one from U+E000 to U+FFFF, which it has the other way round. -/
theorem textBounds_ordered :
    (∀ (field field' : Field) (low high : String), Rejects field low high ↔ Rejects field' low high) ∧
    (∀ field : Field,
      (∀ s, ¬ Rejects field s s) ∧
      (∀ r s t, Rejects field r s → Rejects field s t → Rejects field r t) ∧
      (∀ s t, s ≠ t → (Rejects field s t ↔ ¬ Rejects field t s)) ∧
      (∀ s t, Rejects field s t ↔ Text.units16 t < Text.units16 s) ∧
      (∀ s t, ¬ Text.SurrogatesDecide s t → (Rejects field s t ↔ t < s)) ∧
      (∀ s t, Text.SurrogatesDecide s t → (Rejects field s t ↔ s < t))) := by
  refine ⟨fun field field' low high => by rw [rejects_iff, rejects_iff], fun field => ⟨?_, ?_, ?_, ?_, ?_, ?_⟩⟩
  · intro s
    rw [rejects_iff]
    exact List.lt_irrefl _
  · intro r s t
    rw [rejects_iff, rejects_iff, rejects_iff]
    exact fun hrs hst => List.lt_trans hst hrs
  · intro s t hne
    rw [rejects_iff, rejects_iff]
    exact ⟨List.lt_asymm, (Text.units16_lt_or_gt hne).resolve_left⟩
  · exact fun s t => rejects_iff
  · intro s t hplain
    rw [rejects_iff, Text.units16_lt_iff (mt Text.surrogatesDecide_comm.1 hplain)]
  · intro s t hsurrogates
    rw [rejects_iff, Text.units16_lt_iff_of_surrogates (Text.surrogatesDecide_comm.1 hsurrogates)]

theorem textBounds_ordered_wide :
    let field := Field.text "pin" "12345"
    "～" ≠ "😀" ∧ Text.SurrogatesDecide "～" "😀" ∧ ¬ Text.SurrogatesDecide "😀" " 9" ∧
      Rejects field "～" "😀" ∧ ¬ Rejects field "😀" "～" ∧ Rejects field "～" " 9" := by
  intro field
  have hne : "～" ≠ "😀" := by decide
  have hwide : Text.SurrogatesDecide "～" "😀" := by decide
  have hplain : ¬ Text.SurrogatesDecide "😀" " 9" := by decide
  obtain ⟨-, htrans, hone, -, hchars, hopposite⟩ := textBounds_ordered.2 field
  have hrejected : Rejects field "～" "😀" := (hopposite _ _ hwide).2 (by decide)
  have hbelow : Rejects field "😀" " 9" := (hchars _ _ hplain).2 (by decide)
  exact ⟨hne, hwide, hplain, hrejected, (hone _ _ hne).1 hrejected, htrans _ _ _ hrejected hbelow⟩

end FieldRules.BuiltIn
