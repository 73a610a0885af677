import FieldRules.Log.Redaction
import FieldRules.Proofs.Text.Case
import FieldRules.Proofs.Text.Occurrence

/-!
# Field names that speak of a secret

Whether the name of a field keeps its value out of the log. The key facts: `isSensitive_iff` (the lower-case form of the
name holds a word for names), `isSensitive_of_holds` (it is enough that the name holds one in any case) and
`fieldValue_constant_iff` (such names and no others hide their values, and of the words that announce a secret in free
text, all but two make a name hide its value).
-/

namespace FieldRules

namespace Text

/-- A text holds a word, its ASCII letters in upper or in lower case. -/
def Holds (word : List Char) (name : String) : Prop :=
  ∃ before part after, name.toList = before ++ part ++ after ∧ part.map Char.toLower = word

private theorem Holds.of_infix {part word : List Char} {name : String} (h : Holds word name) (hpart : part <:+: word) :
    Holds part name := by
  obtain ⟨before, written, after, hname, rfl⟩ := h
  obtain ⟨front, back, hword⟩ := hpart
  obtain ⟨written', back', rfl, hwritten, rfl⟩ := List.map_eq_append_iff.1 hword.symm
  obtain ⟨front', part', rfl, rfl, rfl⟩ := List.map_eq_append_iff.1 hwritten
  exact ⟨before ++ front', part', back' ++ after, by simp [hname], rfl⟩

/-- An ASCII word that a text holds stands in its lower-case form. -/
private theorem Holds.infix_lower {word : List Char} {name : String} (h : Holds word name)
    (hascii : ∀ c ∈ word, c.toNat < 128) :
    word <:+: (lower name).toList := by
  obtain ⟨before, part, after, hname, rfl⟩ := h
  have hpart : ∀ c ∈ part, c.toNat < 128 :=
    fun c hc => isAscii_of_toLower (hascii c.toLower (List.mem_map_of_mem hc))
  obtain ⟨front, hfront⟩ := exists_lowerAfter_append [] before (part ++ after)
  rw [lower, String.toList_ofList, hname, List.append_assoc, hfront, lowerAfter_append_of_ascii hpart,
    ← List.append_assoc]
  exact ⟨front, _, rfl⟩

end Text

namespace Redaction

/-- The words that make the name of a field sensitive. -/
def nameWords : List (List Char) :=
  ["key", "token", "password", "passwd", "secret", "credential"].map String.toList

theorem isSensitive_iff {name : String} : isSensitive name ↔ ∃ word ∈ nameWords, word <:+: (Text.lower name).toList := by
  have hany : isSensitive name = nameWords.any fun word => Text.occursIn word (Text.lower name).toList := by
    rw [nameWords, List.any_map]
    rfl
  rw [hany, List.any_eq_true]
  exact exists_congr fun word => and_congr_right fun _ => Text.occursIn_iff

theorem isSensitive_of_holds {word : List Char} {name : String} (hword : word ∈ nameWords)
    (h : Text.Holds word name) : isSensitive name := by
  have hall : nameWords.all fun word => word.all fun c => c.toNat < 128 := by decide
  have hascii : ∀ c ∈ word, c.toNat < 128 := by
    intro c hc
    exact of_decide_eq_true (List.all_eq_true.1 (List.all_eq_true.1 hall word hword) c hc)
  exact isSensitive_iff.2 ⟨word, hword, h.infix_lower hascii⟩

/-- Of the words that announce a secret in free text, all but two hold a word for names. -/
private theorem exists_nameWord_infix {word : List Char} (hword : word ∈ secretWords)
    (hbearer : word ≠ "bearer".toList) (hpwd : word ≠ "pwd".toList) : ∃ part ∈ nameWords, part <:+: word := by
  have hall : ∀ word ∈ secretWords, word ≠ "bearer".toList → word ≠ "pwd".toList →
      ∃ part ∈ nameWords, Text.occursIn part word := by decide
  obtain ⟨part, hpart, hocc⟩ := hall word hword hbearer hpwd
  exact ⟨part, hpart, Text.occursIn_iff.1 hocc⟩

/-- The log shows the same for all values of a field exactly when the lower-case form of its name holds a word for
names. It shows only `***` when the name holds, in any case, one of the words that announce a secret in free text, other
than `bearer` and `pwd`. -/
theorem fieldValue_constant_iff (name : String) :
    ((∀ value value', fieldValue name value = fieldValue name value') ↔
      ∃ word ∈ nameWords, word <:+: (Text.lower name).toList) ∧
    ∀ word ∈ secretWords, word ≠ "bearer".toList → word ≠ "pwd".toList → Text.Holds word name →
      ∀ value, fieldValue name value = "***" := by
  rw [← isSensitive_iff]
  refine ⟨⟨?_, ?_⟩, ?_⟩
  · intro h
    by_contra hplain
    have hsame := h "" "a"
    rw [fieldValue, fieldValue, if_neg hplain, if_neg hplain] at hsame
    exact absurd hsame (by decide)
  · intro h value value'
    rw [fieldValue, fieldValue, if_pos h, if_pos h]
  · intro word hword hbearer hpwd hholds value
    obtain ⟨part, hpart, hinfix⟩ := exists_nameWord_infix hword hbearer hpwd
    rw [fieldValue, if_pos (isSensitive_of_holds hpart (hholds.of_infix hinfix))]

theorem fieldValue_constant_apiKey :
    Text.Holds "api-key".toList "my API-Key" ∧ fieldValue "my API-Key" "hunter2" = "***" := by
  have hholds : Text.Holds "api-key".toList "my API-Key" := ⟨"my ".toList, "API-Key".toList, [], by decide, by decide⟩
  obtain ⟨-, hshown⟩ := fieldValue_constant_iff "my API-Key"
  exact ⟨hholds, hshown "api-key".toList (by decide) (by decide) (by decide) hholds "hunter2"⟩

theorem not_fieldValue_constant_pwd :
    ¬ ∀ word ∈ secretWords, ∀ name, Text.Holds word name →
      ∀ value value', fieldValue name value = fieldValue name value' := by
  intro h
  have hholds : Text.Holds "pwd".toList "pwd" := ⟨[], "pwd".toList, [], by decide, by decide⟩
  exact absurd (h "pwd".toList (by decide) "pwd" hholds "hunter2" "hunter3") (by decide)

end Redaction

end FieldRules
