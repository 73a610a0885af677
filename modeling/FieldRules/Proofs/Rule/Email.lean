import FieldRules.Proofs.Text.Pattern
import FieldRules.Rule.BuiltIn

/-!
# E-mail addresses

Which values the `email` rule accepts: those of the language `(X+ @ X+)*`, where `X` is any character that does not
end a line, an `@` among them. The key facts: `BuiltIn.mem_addresses_iff` (repetitions add nothing to the language but
the empty text), `BuiltIn.language_emailPattern` (the pattern of the rule stands for this language) and
`BuiltIn.email_language`.
-/

namespace FieldRules.BuiltIn

open scoped Computability

/-- A character that does not end a line. -/
def StaysOnLine (c : Char) : Prop := c ≠ '\n' ∧ c ≠ '\r' ∧ c ≠ '\u2028' ∧ c ≠ '\u2029'

/-- One such character. -/
def plainChar : Language Char := {cs | ∃ c, cs = [c] ∧ StaysOnLine c}

/-- At least one such character. -/
def part : Language Char := plainChar * plainChar∗

/-- Two parts with an `@` between them. -/
def address : Language Char := part * {['@']} * part

/-- Any number of addresses, one after the other. -/
def addresses : Language Char := address∗

/-- An `@` that is neither the first nor the last character. -/
def HasInnerAt (cs : List Char) : Prop := ∃ i, i ≠ 0 ∧ i + 1 ≠ cs.length ∧ cs[i]? = some '@'

/-! ### The parts -/

private theorem mem_plainChar_iff {cs : List Char} : cs ∈ plainChar ↔ ∃ c, cs = [c] ∧ StaysOnLine c := Iff.rfl

private theorem mem_kstar_plainChar_iff {cs : List Char} : cs ∈ plainChar∗ ↔ ∀ c ∈ cs, StaysOnLine c := by
  rw [Language.mem_kstar]
  constructor
  · rintro ⟨pieces, rfl, hpieces⟩ c hc
    obtain ⟨piece, hpiece, hmem⟩ := List.mem_flatten.1 hc
    obtain ⟨d, rfl, hd⟩ := mem_plainChar_iff.1 (hpieces piece hpiece)
    exact List.mem_singleton.1 hmem ▸ hd
  · intro h
    refine ⟨cs.map fun c => [c], by rw [← List.flatMap_def, List.flatMap_singleton'], ?_⟩
    intro piece hpiece
    obtain ⟨c, hc, rfl⟩ := List.mem_map.1 hpiece
    exact mem_plainChar_iff.2 ⟨c, rfl, h c hc⟩

private theorem mem_part_iff {cs : List Char} : cs ∈ part ↔ cs ≠ [] ∧ ∀ c ∈ cs, StaysOnLine c := by
  rw [part, Language.mem_mul]
  constructor
  · rintro ⟨first, hfirst, rest, hrest, rfl⟩
    obtain ⟨c, rfl, hc⟩ := mem_plainChar_iff.1 hfirst
    exact ⟨by simp, List.forall_mem_cons.2 ⟨hc, mem_kstar_plainChar_iff.1 hrest⟩⟩
  · rintro ⟨hne, h⟩
    obtain ⟨c, rest, rfl⟩ := List.exists_cons_of_ne_nil hne
    obtain ⟨hc, hrest⟩ := List.forall_mem_cons.1 h
    exact ⟨[c], mem_plainChar_iff.2 ⟨c, rfl, hc⟩, rest, mem_kstar_plainChar_iff.2 hrest, rfl⟩

/-! ### Addresses -/

private theorem hasInnerAt_iff {cs : List Char} :
    HasInnerAt cs ↔ ∃ before after, before ≠ [] ∧ after ≠ [] ∧ cs = before ++ '@' :: after := by
  constructor
  · rintro ⟨i, hfirst, hlast, hat⟩
    obtain ⟨hi, hget⟩ := List.getElem?_eq_some_iff.1 hat
    refine ⟨cs.take i, cs.drop (i + 1), ?_, ?_, ?_⟩
    · simp only [ne_eq, List.take_eq_nil_iff, not_or]
      exact ⟨hfirst, List.ne_nil_of_length_pos (by omega)⟩
    · rw [ne_eq, List.drop_eq_nil_iff]
      omega
    · rw [← hget, ← List.drop_eq_getElem_cons, List.take_append_drop]
  · rintro ⟨before, after, hbefore, hafter, rfl⟩
    have hafter' : after.length ≠ 0 := mt List.length_eq_zero_iff.1 hafter
    refine ⟨before.length, mt List.length_eq_zero_iff.1 hbefore, ?_, by simp⟩
    simp only [List.length_append, List.length_cons]
    omega

private theorem mem_address_iff {cs : List Char} : cs ∈ address ↔ (∀ c ∈ cs, StaysOnLine c) ∧ HasInnerAt cs := by
  rw [hasInnerAt_iff, address, Language.mem_mul]
  constructor
  · rintro ⟨front, hfront, after, hafter, rfl⟩
    obtain ⟨before, hbefore, sign, rfl, rfl⟩ := Language.mem_mul.1 hfront
    rw [mem_part_iff] at hbefore hafter
    have hat : StaysOnLine '@' := by simp [StaysOnLine]
    refine ⟨?_, before, after, hbefore.1, hafter.1, by simp⟩
    simp only [List.forall_mem_append, List.forall_mem_singleton]
    exact ⟨⟨hbefore.2, hat⟩, hafter.2⟩
  · rintro ⟨hplain, before, after, hbefore, hafter, rfl⟩
    rw [List.forall_mem_append, List.forall_mem_cons] at hplain
    refine ⟨before ++ ['@'], ?_, after, mem_part_iff.2 ⟨hafter, hplain.2.2⟩, by simp⟩
    exact Language.append_mem_mul (mem_part_iff.2 ⟨hbefore, hplain.1⟩) (Set.mem_singleton _)

/-- An address followed by addresses is one address: the last part takes in whatever comes after it. -/
theorem mem_addresses_iff {cs : List Char} :
    cs ∈ addresses ↔ cs = [] ∨ (∀ c ∈ cs, StaysOnLine c) ∧ HasInnerAt cs := by
  rw [addresses, Language.mem_kstar]
  constructor
  · rintro ⟨all, rfl, hall⟩
    cases all with
    | nil => exact .inl rfl
    | cons first rest =>
      right
      obtain ⟨hfirst, hrest⟩ := List.forall_mem_cons.1 hall
      have hplain : ∀ c ∈ rest.flatten, StaysOnLine c := by
        intro c hc
        obtain ⟨cs, hcs, hmem⟩ := List.mem_flatten.1 hc
        exact (mem_address_iff.1 (hrest cs hcs)).1 c hmem
      obtain ⟨hfirst, hat⟩ := mem_address_iff.1 hfirst
      obtain ⟨before, after, hbefore, hafter, rfl⟩ := hasInnerAt_iff.1 hat
      rw [List.flatten_cons, hasInnerAt_iff]
      exact ⟨List.forall_mem_append.2 ⟨hfirst, hplain⟩, before, after ++ rest.flatten, hbefore, by simp [hafter],
        by simp⟩
  · rintro (rfl | haddress)
    · exact Language.nil_mem_kstar _
    · exact ⟨[cs], by simp, List.forall_mem_singleton.2 (mem_address_iff.2 haddress)⟩

/-! ### The rule -/

/-- The pattern of the rule stands for the language. -/
theorem language_emailPattern : emailPattern.language = addresses := by
  have hat : (Text.Pattern.oneOf ['@']).language = {['@']} := by
    ext cs
    simp only [Text.Pattern.mem_language_oneOf, List.mem_singleton, exists_eq_left]
    rfl
  have hplain : (Text.Pattern.noneOf ['\n', '\r', '\u2028', '\u2029']).language = plainChar := by
    ext cs
    rw [Text.Pattern.mem_language_noneOf, mem_plainChar_iff]
    simp [StaysOnLine]
  have hpart : emailPart.language = part := congrArg (fun L => L * L∗) hplain
  rw [addresses, address, ← hat, ← hpart]
  rfl

/-- The `email` rule passes the texts of the language `(X+ @ X+)*` and no others. These are the empty text, and those on
one line with an `@` that is neither their first nor their last character. -/
theorem email_language (field : Field) (params : List RuleParam) :
    (email field params = .ok true ↔ field.valueOrEmpty.toList ∈ addresses) ∧
    (email field params = .ok false ↔ field.valueOrEmpty.toList ∉ addresses) ∧
    (field.valueOrEmpty.toList ∈ addresses ↔
      field.valueOrEmpty = "" ∨
        (∀ c ∈ field.valueOrEmpty.toList, StaysOnLine c) ∧ HasInnerAt field.valueOrEmpty.toList) := by
  have hanswer : email field params = .ok (emailPattern.matchesWhole field.valueOrEmpty.toList) := rfl
  have hpasses : emailPattern.matchesWhole field.valueOrEmpty.toList ↔ field.valueOrEmpty.toList ∈ addresses := by
    rw [Text.Pattern.matchesWhole_iff, language_emailPattern]
  refine ⟨?_, ?_, ?_⟩
  · rw [hanswer, Except.ok.injEq, hpasses]
  · rw [hanswer, Except.ok.injEq, ← hpasses, Bool.not_eq_true]
  · rw [mem_addresses_iff, String.toList_eq_nil_iff]

end FieldRules.BuiltIn
