import FieldRules.Proofs.Registry.Lookup
import FieldRules.Proofs.Rule.FileType
import FieldRules.Proofs.Rule.RoundTrip
import FieldRules.Proofs.Session.Composition
import FieldRules.Proofs.Text.Case

/-!
# File types as they are written

What becomes of a list of types that is written in a rule string: a list that is a literal is read as a number and
compared by the text of the number, and words and values are lower-cased apart from each other. The key facts:
`Session.acceptsType_iff` (a session accepts a value exactly when it is empty or ends in a piece of the list as it was
read) and `Session.acceptsType_written` (when the types are accepted as they were written).
-/

namespace FieldRules

open BuiltIn (EndsIn words)

/-! ### Words and values in lower case -/

namespace BuiltIn

/-- A value that ends in a word, character for character, is found to do so, unless the word opens with a final sigma and a
letter stands before it. -/
private theorem endsIn_append_iff {front word : String} :
    EndsIn (front ++ word) word ↔
      ¬ (Text.nextIsCased front.toList.reverse ∧ Text.opensWithFinalSigma word.toList) :=
  Text.lower_isSuffix_iff

private theorem endsIn_of_suffix {value word : String} (h : word.toList <:+ value.toList) (hsigma : 'Σ' ∉ word.toList) :
    EndsIn value word := by
  obtain ⟨front, hfront⟩ := h
  obtain rfl : String.ofList front ++ word = value := String.toList_inj.1 (by simpa using hfront)
  rw [endsIn_append_iff, Text.opensWithFinalSigma_of_not_mem hsigma]
  simp

/-- A value without letters ends, letter case aside, in nothing but what it ends in. -/
private theorem suffix_of_endsIn {value word : String} (hvalue : ∀ c ∈ value.toList, c.toNat < 128 ∧ ¬ c.isAlpha)
    (hword : ∀ c ∈ word.toList, c.toNat < 128) (h : EndsIn value word) : word.toList <:+ value.toList := by
  unfold EndsIn at h
  rw [Text.toList_lower_of_no_letter (fun c hc => (hvalue c hc).1) fun c hc => (hvalue c hc).2] at h
  have hletter : ∀ c ∈ word.toList, ¬ c.isAlpha := by
    intro c hc
    have hlower : c.toLower ∈ value.toList := by
      refine h.mem ?_
      rw [Text.toList_lower_of_ascii hword]
      exact List.mem_map_of_mem hc
    rw [← Text.isAlpha_toLower (hword c hc)]
    exact (hvalue _ hlower).2
  rwa [Text.toList_lower_of_no_letter hword hletter] at h

end BuiltIn

/-! ### Lists of types that are numbers -/

namespace RuleParam

/-- What a list of types is read as ends the list as it was written. -/
def EndsAsWritten (types : String) : Prop := (ofRaw types).display.toList <:+ types.toList

instance (types : String) : Decidable (EndsAsWritten types) :=
  inferInstanceAs (Decidable ((ofRaw types).display.toList <:+ types.toList))

private theorem endsAsWritten_of_not_numeric {types : String} (h : ¬ Numeral.NumericText types.toList) :
    EndsAsWritten types := by
  unfold EndsAsWritten
  rw [ofRaw_of_not_numeric h]
  exact List.suffix_rfl

private theorem exists_ofRaw_eq_number {raw : String} (h : Numeral.NumericText raw.toList) :
    ∃ x, ofRaw raw = number x := by
  obtain ⟨n, hn⟩ := Option.isSome_iff_exists.1 (Numeral.isSome_ofLiteral?_iff.2 h)
  exact ⟨_, ofRaw_of_literal hn⟩

end RuleParam

namespace Session

/-- A session over the standard rules accepts a value for a list of types: no error is reported for a field that holds
the value, with the `file_type` rule of the list alone. -/
def AcceptsType (types value : String) : Prop :=
  ∀ (source : FieldSource) (name : String) (field : Field), source name = some field → field.value = some value →
    (Session.mk source .standard [⟨name, "file_type(" ++ types ++ ")"⟩]).evaluate.result = .ok []

/-- A list of types that can stand as the one parameter of a rule. -/
structure IsTypeList (types : String) : Prop where
  inner : RuleCall.IsInner types
  noComma : ',' ∉ types.toList
  noBar : '|' ∉ types.toList

variable {types value : String}

/-- The verdict on a list of types is the one of the rule. -/
private theorem evaluate_fileType (h : IsTypeList types) {source : FieldSource} {name : String} {field : Field}
    (hfield : source name = some field) :
    (Session.mk source .standard [⟨name, "file_type(" ++ types ++ ")"⟩]).evaluate.result = .ok [] ↔
      BuiltIn.fileType field [.ofRaw types] = .ok true := by
  obtain ⟨d, hd, hname, hcount, heval⟩ := BuiltIn.exists_fileType
  have hfind : Registry.standard.find? "file_type" = some d := Registry.find?_standard_eq_some_iff.2 ⟨hd, hname⟩
  have hparse : RuleCall.parse ("file_type(" ++ types ++ ")") = .ok ⟨"file_type", [.ofRaw types]⟩ := by
    have hrule : RuleCall.IsName "file_type" := by decide
    have htoken : "file_type(" = "file_type" ++ "(" := by decide
    rw [htoken]
    exact RuleCall.parse_applied hrule h.inner h.noComma
  have hbar : '|' ∉ ("file_type(" ++ types ++ ")").toList := by simp [h.noBar]
  generalize "file_type(" ++ types ++ ")" = token at *
  rw [← heval]
  cases hvalid : d.evaluate field [.ofRaw types] with
  | error fault =>
    rw [heval, BuiltIn.fileType_singleton] at hvalid
    cases hvalid
  | ok valid =>
    cases valid with
    | true =>
      have hjudged : Judged .standard ⟨name, token⟩ field token .passes := .passed hparse hfind hcount hvalid
      simp [evaluate_token hfield hbar hjudged, Verdict.result, Except.map]
    | false =>
      have hjudged : Judged .standard ⟨name, token⟩ field token (.fails _) := .failed hparse hfind hcount hvalid
      simp [evaluate_token hfield hbar hjudged, Verdict.result, Except.map]

theorem acceptsType_iff (h : IsTypeList types) :
    AcceptsType types value ↔
      value = "" ∨ ∃ type ∈ Text.split ' ' (RuleParam.ofRaw types).display, EndsIn value type := by
  constructor
  · intro haccepts
    have hfield := haccepts (fun _ => some (.text "" value)) "" (.text "" value) rfl rfl
    exact BuiltIn.fileType_eq_true_iff.1 ((evaluate_fileType h rfl).1 hfield)
  · intro hends source name field hfield hvalue
    have hheld : field.valueOrEmpty = value := by simp [Field.valueOrEmpty, hvalue]
    exact (evaluate_fileType h hfield).2 (BuiltIn.fileType_eq_true_iff.2 (by rwa [hheld]))

/-- A list that is a number is searched for as the text of the number. -/
private theorem acceptsType_number_iff (h : IsTypeList types) {x : Binary64} (hx : RuleParam.ofRaw types = .number x) :
    AcceptsType types value ↔ value = "" ∨ EndsIn value (RuleParam.number x).display := by
  have hspace : ' ' ∉ (RuleParam.number x).display.toList := RuleParam.not_mem_display_number (by decide) x
  rw [acceptsType_iff h, hx, Text.split_of_not_mem hspace]
  simp

/-- A list that is a number accepts all values that end in it when it ends in the text of the number. -/
private theorem acceptsType_number (h : IsTypeList types) (hnum : Numeral.NumericText types.toList) :
    (∀ front, AcceptsType types (front ++ types)) ↔ RuleParam.EndsAsWritten types := by
  obtain ⟨x, hx⟩ := RuleParam.exists_ofRaw_eq_number hnum
  have hsigma : 'Σ' ∉ (RuleParam.number x).display.toList := RuleParam.not_mem_display_number (by decide) x
  have hwritten : RuleParam.EndsAsWritten types ↔ (RuleParam.number x).display.toList <:+ types.toList := by
    rw [RuleParam.EndsAsWritten, hx]
  rw [hwritten]
  constructor
  · intro hall
    -- the list itself is a value that ends in it
    have hself := (acceptsType_number_iff h hx).1 (hall "")
    rw [String.empty_append, or_iff_right h.inner.1] at hself
    refine BuiltIn.suffix_of_endsIn (fun c hc => hnum.ascii hc) ?_ hself
    intro c hc
    exact NumberStyle.toNat_lt_of_isNumberChar (List.all_eq_true.1 (NumberStyle.all_render x) c hc)
  · intro hsuffix front
    refine (acceptsType_number_iff h hx).2 (.inr (BuiltIn.endsIn_of_suffix ?_ hsigma))
    rw [String.toList_append]
    exact hsuffix.trans (List.suffix_append ..)

/-- A list that is no number accepts the values that end in one of its words, unless the word opens with a final sigma and
a letter stands before it. -/
private theorem acceptsType_word (h : IsTypeList types) (hnum : ¬ Numeral.NumericText types.toList)
    {front word : String} (hword : word ∈ words types)
    (hsigma : ¬ (Text.nextIsCased front.toList.reverse ∧ Text.opensWithFinalSigma word.toList)) :
    AcceptsType types (front ++ word) := by
  refine (acceptsType_iff h).2 (.inr ⟨word, ?_, BuiltIn.endsIn_append_iff.2 hsigma⟩)
  rw [RuleParam.ofRaw_of_not_numeric hnum]
  exact (BuiltIn.mem_words_iff.1 hword).1

/-- A single word that opens with a final sigma is not found behind a letter. -/
private theorem not_opensWithFinalSigma_of_acceptsType (h : IsTypeList types)
    (hnum : ¬ Numeral.NumericText types.toList) (hspace : ' ' ∉ types.toList)
    (haccepts : AcceptsType types ("a" ++ types)) :
    ¬ Text.opensWithFinalSigma types.toList := by
  have hne : "a" ++ types ≠ "" := by simp [← String.toList_inj]
  have hletter : Text.nextIsCased "a".toList.reverse := by decide +kernel
  have hsplit : Text.split ' ' (RuleParam.text types).display = [types] := Text.split_of_not_mem hspace
  rw [acceptsType_iff h, or_iff_right hne, RuleParam.ofRaw_of_not_numeric hnum, hsplit] at haccepts
  have hends : EndsIn ("a" ++ types) types := by simpa using haccepts
  exact fun hsigma => BuiltIn.endsIn_append_iff.1 hends ⟨hletter, hsigma⟩

/-- Types are accepted as they were written when the list is not read as a number of another text: a value that ends in
one of the words passes, unless the word opens with a final sigma and a letter stands before it. For a list of one word
both conditions are needed, if every value that ends in the word is to pass. -/
theorem acceptsType_written (h : IsTypeList types) :
    (RuleParam.EndsAsWritten types → ∀ front word, word ∈ words types →
      ¬ (Text.nextIsCased front.toList.reverse ∧ Text.opensWithFinalSigma word.toList) →
      AcceptsType types (front ++ word)) ∧
    (' ' ∉ types.toList →
      ((∀ front, AcceptsType types (front ++ types)) ↔
        RuleParam.EndsAsWritten types ∧ ¬ Text.opensWithFinalSigma types.toList)) := by
  by_cases hnum : Numeral.NumericText types.toList
  · have hspace : ' ' ∉ types.toList := hnum.not_mem (by decide) (by decide) (by decide)
    have hsigma : 'Σ' ∉ types.toList := hnum.not_mem (by decide) (by decide) (by decide)
    constructor
    · intro hwritten front word hword _
      obtain rfl : word = types := by simpa [BuiltIn.words_of_not_mem h.inner.1 hspace] using hword
      exact (acceptsType_number h hnum).2 hwritten front
    · intro _
      rw [acceptsType_number h hnum, Text.opensWithFinalSigma_of_not_mem hsigma]
      simp
  · constructor
    · exact fun _ front word hword hsigma => acceptsType_word h hnum hword hsigma
    · intro hspace
      have hword : types ∈ words types := by simp [BuiltIn.words_of_not_mem h.inner.1 hspace]
      rw [and_iff_right (RuleParam.endsAsWritten_of_not_numeric hnum)]
      constructor
      · exact fun hall => not_opensWithFinalSigma_of_acceptsType h hnum hspace (hall "a")
      · exact fun hsigma front => acceptsType_word h hnum hword fun hboth => hsigma hboth.2

/-- A list of two types, and a value in front of which a letter stands. -/
theorem acceptsType_written_two :
    IsTypeList "tar.gz ΑΣ" ∧ AcceptsType "tar.gz ΑΣ" "photoΑΣ" ∧ AcceptsType "tar.gz ΑΣ" "backup.tar.gz" := by
  have h : IsTypeList "tar.gz ΑΣ" := ⟨by decide, by decide, by decide⟩
  have hwritten : RuleParam.EndsAsWritten "tar.gz ΑΣ" := by decide +kernel
  obtain ⟨hwords, -⟩ := acceptsType_written h
  refine ⟨h, ?_, ?_⟩
  · exact hwords hwritten "photo" "ΑΣ" (by decide) (by decide +kernel)
  · exact hwords hwritten "backup." "tar.gz" (by decide) (by decide +kernel)

/-- A type that is read as a number of another text is not accepted as it was written. -/
theorem not_acceptsType_as_written :
    ¬ ∀ types, IsTypeList types → ∀ value, (∃ word ∈ words types, word.toList <:+ value.toList) →
      AcceptsType types value := by
  intro h
  have hlist : IsTypeList ".7" := ⟨by decide, by decide, by decide⟩
  have haccepts := h ".7" hlist "backup.7" ⟨".7", by decide, by decide⟩
  rw [acceptsType_iff hlist] at haccepts
  revert haccepts
  decide +kernel

end Session

end FieldRules
