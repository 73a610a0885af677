import FieldRules.Text.Pattern
import Mathlib.Computability.Language

/-!
# The language of a pattern

A pattern stands for a language, and a text follows the pattern exactly when it belongs to that language. The key facts:
`Pattern.cons_mem_language_iff` (what may follow a character) and `Pattern.matchesWhole_iff`.
-/

namespace FieldRules.Text.Pattern

open scoped Computability

/-- The texts that a pattern stands for. -/
def language : Pattern → Language Char
  | done => 1
  | oneOf chars => {cs | ∃ c ∈ chars, cs = [c]}
  | noneOf chars => {cs | ∃ c, cs = [c] ∧ c ∉ chars}
  | seq p q => p.language * q.language
  | star p => p.language∗

variable {L M : Language Char} {p : Pattern} {c : Char} {cs : List Char}

private theorem mem_language_done : cs ∈ done.language ↔ cs = [] := Iff.rfl

theorem mem_language_oneOf {chars : List Char} : cs ∈ (oneOf chars).language ↔ ∃ c ∈ chars, cs = [c] := Iff.rfl

theorem mem_language_noneOf {chars : List Char} : cs ∈ (noneOf chars).language ↔ ∃ c, cs = [c] ∧ c ∉ chars := Iff.rfl

private theorem nil_mem_mul : [] ∈ L * M ↔ [] ∈ L ∧ [] ∈ M := by
  rw [Language.mem_mul]
  constructor
  · rintro ⟨x, hx, y, hy, hxy⟩
    obtain ⟨rfl, rfl⟩ := List.append_eq_nil_iff.1 hxy
    exact ⟨hx, hy⟩
  · rintro ⟨hL, hM⟩
    exact ⟨[], hL, [], hM, rfl⟩

/-- The first character of a text belongs to its first part, unless this part is empty. -/
private theorem cons_mem_mul :
    c :: cs ∈ L * M ↔ (∃ x, c :: x ∈ L ∧ ∃ y ∈ M, x ++ y = cs) ∨ ([] ∈ L ∧ c :: cs ∈ M) := by
  rw [Language.mem_mul]
  constructor
  · rintro ⟨x, hx, y, hy, hxy⟩
    cases x with
    | nil => exact .inr ⟨hx, hxy ▸ hy⟩
    | cons d x =>
      obtain ⟨rfl, rfl⟩ := List.cons.inj hxy
      exact .inl ⟨x, hx, y, hy, rfl⟩
  · rintro (⟨x, hx, y, hy, rfl⟩ | ⟨hnil, hcs⟩)
    · exact ⟨c :: x, hx, y, hy, rfl⟩
    · exact ⟨[], hnil, c :: cs, hcs, rfl⟩

/-- It belongs to the first part that is not empty. -/
private theorem cons_mem_kstar : c :: cs ∈ L∗ ↔ ∃ x, c :: x ∈ L ∧ ∃ y ∈ L∗, x ++ y = cs := by
  constructor
  · intro h
    obtain ⟨parts, hparts, hmem⟩ := Language.mem_kstar_iff_exists_nonempty.1 h
    cases parts with
    | nil => cases hparts
    | cons part parts =>
      obtain ⟨⟨hpart, hne⟩, hrest⟩ := List.forall_mem_cons.1 hmem
      obtain ⟨d, x, rfl⟩ := List.exists_cons_of_ne_nil hne
      rw [List.flatten_cons, List.cons_append] at hparts
      obtain ⟨rfl, rfl⟩ := List.cons.inj hparts
      exact ⟨x, hpart, parts.flatten, Language.join_mem_kstar fun y hy => (hrest y hy).1, rfl⟩
  · rintro ⟨x, hx, y, hy, rfl⟩
    obtain ⟨parts, rfl, hparts⟩ := Language.mem_kstar.1 hy
    exact Language.mem_kstar.2 ⟨(c :: x) :: parts, rfl, List.forall_mem_cons.2 ⟨hx, hparts⟩⟩

private theorem isNullable_iff : p.isNullable ↔ [] ∈ p.language := by
  induction p with
  | done => simp [isNullable, mem_language_done]
  | oneOf chars => simp [isNullable, mem_language_oneOf]
  | noneOf chars => simp [isNullable, mem_language_noneOf]
  | seq p q hp hq => rw [isNullable, language, nil_mem_mul, Bool.and_eq_true, hp, hq]
  | star p => simp [isNullable, language, Language.nil_mem_kstar]

/-- What follows the first of two parts goes on with the second. -/
private theorem exists_mem_map_seq {ps : List Pattern} {q : Pattern} :
    (∃ p ∈ ps.map (seq · q), cs ∈ p.language) ↔
      ∃ x, (∃ p ∈ ps, x ∈ p.language) ∧ ∃ y ∈ q.language, x ++ y = cs := by
  constructor
  · rintro ⟨_, hmap, hcs⟩
    obtain ⟨p, hp, rfl⟩ := List.mem_map.1 hmap
    obtain ⟨x, hx, y, hy, hxy⟩ := Language.mem_mul.1 hcs
    exact ⟨x, ⟨p, hp, hx⟩, y, hy, hxy⟩
  · rintro ⟨x, ⟨p, hp, hx⟩, y, hy, hxy⟩
    exact ⟨seq p q, List.mem_map_of_mem hp, Language.mem_mul.2 ⟨x, hx, y, hy, hxy⟩⟩

/-- The texts that go on after a character are those of what may follow it. -/
theorem cons_mem_language_iff : c :: cs ∈ p.language ↔ ∃ q ∈ p.rests c, cs ∈ q.language := by
  induction p generalizing cs with
  | done => simp [rests, mem_language_done]
  | oneOf chars =>
    by_cases hc : c ∈ chars <;> simp [rests, mem_language_oneOf, mem_language_done, hc]
  | noneOf chars =>
    by_cases hc : c ∈ chars <;> simp [rests, mem_language_noneOf, mem_language_done, hc]
  | seq p q hp hq =>
    -- the character belongs to the second part only where the first may be empty
    have hsecond : (∃ r ∈ if p.isNullable then q.rests c else [], cs ∈ r.language) ↔
        [] ∈ p.language ∧ c :: cs ∈ q.language := by
      rw [← isNullable_iff, hq]
      cases p.isNullable <;> simp
    rw [language, cons_mem_mul, ← hsecond]
    simp only [hp, ← exists_mem_map_seq, rests, List.mem_append, or_and_right, exists_or]
  | star p hp =>
    rw [language, cons_mem_kstar, rests, exists_mem_map_seq]
    simp only [hp, language]

/-- A text follows one of some patterns when it belongs to the language of one. -/
private theorem anyMatches_iff {ps : List Pattern} : anyMatches ps cs ↔ ∃ p ∈ ps, cs ∈ p.language := by
  induction cs generalizing ps with
  | nil => simp only [anyMatches, List.any_eq_true, isNullable_iff]
  | cons c cs ih =>
    simp only [anyMatches, ih, List.mem_eraseDups, List.mem_flatMap, cons_mem_language_iff]
    constructor
    · rintro ⟨q, ⟨p, hp, hq⟩, hcs⟩
      exact ⟨p, hp, q, hq, hcs⟩
    · rintro ⟨p, hp, q, hq, hcs⟩
      exact ⟨q, ⟨p, hp, hq⟩, hcs⟩

theorem matchesWhole_iff : p.matchesWhole cs ↔ cs ∈ p.language := by
  rw [matchesWhole, anyMatches_iff]
  simp

end FieldRules.Text.Pattern
