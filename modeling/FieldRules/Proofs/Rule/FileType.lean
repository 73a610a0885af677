import FieldRules.Proofs.Rule.BuiltIn
import FieldRules.Proofs.Text.Split

/-!
# File types

Which values the `file_type` rule accepts: the empty one, those that end in one of the words of the list of types, letter
case aside, and all of them when some piece between the spaces of the list is empty. The key facts:
`BuiltIn.fileType_eq_true_iff` and `BuiltIn.fileType_foreign` (the rule tells a foreign type exactly when the words of the
list stand apart by single spaces).
-/

namespace FieldRules.BuiltIn

/-- The words of a list of types, between the spaces. -/
def words (types : String) : List String := (Text.split ' ' types).filter (· ≠ "")

/-- Whether a value ends in a word, letter case aside. -/
def EndsIn (value word : String) : Prop := (Text.lower word).toList <:+ (Text.lower value).toList

instance (value word : String) : Decidable (EndsIn value word) :=
  inferInstanceAs (Decidable ((Text.lower word).toList <:+ (Text.lower value).toList))

/-- A list of types whose words stand apart by single spaces, without spaces at the ends. -/
structure SinglySpaced (types : String) : Prop where
  nonempty : types ≠ ""
  start : types.toList.head? ≠ some ' '
  stop : types.toList.getLast? ≠ some ' '
  between : ¬ [' ', ' '] <:+: types.toList

private theorem endsIn_empty (value : String) : EndsIn value "" := List.nil_suffix

private theorem singlySpaced_iff {types : String} : SinglySpaced types ↔ "" ∉ Text.split ' ' types := by
  rw [Text.empty_mem_split_iff, not_or, not_or, not_or]
  constructor
  · exact fun h => ⟨h.nonempty, h.start, h.stop, h.between⟩
  · rintro ⟨hnonempty, hstart, hstop, hbetween⟩
    exact ⟨hnonempty, hstart, hstop, hbetween⟩

theorem mem_words_iff {types word : String} : word ∈ words types ↔ word ∈ Text.split ' ' types ∧ word ≠ "" := by
  simp [words]

/-- A list of one word. -/
theorem words_of_not_mem {types : String} (hne : types ≠ "") (h : ' ' ∉ types.toList) : words types = [types] := by
  rw [words, Text.split_of_not_mem h]
  simp [hne]

theorem exists_fileType : ∃ d ∈ definitions, d.name = "file_type" ∧ d.parameterCount = 1 ∧ d.evaluate = fileType := by
  simp [definitions]

/-- The rule accepts an empty value, and one that ends in a piece between the spaces. -/
theorem fileType_eq_true_iff {field : Field} {p : RuleParam} :
    fileType field [p] = .ok true ↔
      field.valueOrEmpty = "" ∨ ∃ type ∈ Text.split ' ' p.display, EndsIn field.valueOrEmpty type := by
  rw [fileType_singleton, Except.ok.injEq, Bool.or_eq_true, String.isEmpty_iff, List.any_eq_true]
  simp only [List.isSuffixOf_iff_suffix, EndsIn]

private theorem fileType_eq_false_iff {field : Field} {p : RuleParam} :
    fileType field [p] = .ok false ↔ ¬ fileType field [p] = .ok true := by
  rw [fileType_singleton]
  simp

/-- An empty piece between the spaces lets every value pass. -/
private theorem exists_endsIn_iff {value types : String} :
    (∃ type ∈ Text.split ' ' types, EndsIn value type) ↔
      ¬ SinglySpaced types ∨ ∃ word ∈ words types, EndsIn value word := by
  rw [singlySpaced_iff, not_not]
  constructor
  · rintro ⟨type, htype, hends⟩
    by_cases hempty : type = ""
    · exact .inl (hempty ▸ htype)
    · exact .inr ⟨type, mem_words_iff.2 ⟨htype, hempty⟩, hends⟩
  · rintro (hempty | ⟨word, hword, hends⟩)
    · exact ⟨"", hempty, endsIn_empty value⟩
    · exact ⟨word, (mem_words_iff.1 hword).1, hends⟩

/-- A value that ends in none of the words of the list is rejected exactly when the words stand apart by single spaces. A
list without words, with a space at one of its ends or with two spaces next to each other lets every value pass. -/
theorem fileType_foreign {field : Field} {p : RuleParam} (hvalue : field.valueOrEmpty ≠ "")
    (hforeign : ∀ word ∈ words p.display, ¬ EndsIn field.valueOrEmpty word) :
    (fileType field [p] = .ok false ↔ SinglySpaced p.display) ∧
      (fileType field [p] = .ok true ↔ ¬ SinglySpaced p.display) := by
  have htrue : fileType field [p] = .ok true ↔ ¬ SinglySpaced p.display := by
    have hnone : ¬ ∃ word ∈ words p.display, EndsIn field.valueOrEmpty word := by
      rintro ⟨word, hword, hends⟩
      exact hforeign word hword hends
    rw [fileType_eq_true_iff, exists_endsIn_iff, or_iff_right hvalue, or_iff_left hnone]
  exact ⟨by rw [fileType_eq_false_iff, htrue, not_not], htrue⟩

theorem fileType_foreign_exe :
    let field := Field.text "photo" "photo.png.exe"
    let types := RuleParam.text "jpg png"
    field.valueOrEmpty ≠ "" ∧ (∀ word ∈ words types.display, ¬ EndsIn field.valueOrEmpty word) ∧
      SinglySpaced types.display ∧ fileType field [types] = .ok false := by
  intro field types
  have hvalue : field.valueOrEmpty ≠ "" := by decide
  have hforeign : ∀ word ∈ words types.display, ¬ EndsIn field.valueOrEmpty word := by decide +kernel
  have hspaced : SinglySpaced types.display := ⟨by decide, by decide, by decide, by decide +kernel⟩
  exact ⟨hvalue, hforeign, hspaced, (fileType_foreign hvalue hforeign).1.2 hspaced⟩

/-- A second space between two types lets a value of neither pass. -/
theorem not_fileType_rejects_foreign :
    ¬ ∀ (types : String) (field : Field), field.valueOrEmpty ≠ "" →
      (∀ word ∈ words types, ¬ EndsIn field.valueOrEmpty word) → fileType field [.text types] = .ok false := by
  intro h
  have hforeign : ∀ word ∈ words "jpg  png", ¬ EndsIn (Field.text "photo" "photo.gif").valueOrEmpty word := by
    decide +kernel
  have hpasses : fileType (.text "photo" "photo.gif") [.text "jpg  png"] = .ok true := by decide +kernel
  have hrejects := h "jpg  png" (.text "photo" "photo.gif") (by decide) hforeign
  rw [hpasses] at hrejects
  cases hrejects

end FieldRules.BuiltIn
