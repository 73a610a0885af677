import FieldRules.Fault
import FieldRules.Proofs.Number.Literal
import FieldRules.Proofs.Text.Split

/-!
# The grammar of rule calls

A token is a rule call when it is a name, or a name with something between parentheses behind it (`RuleCall.Form`).
The key facts: `RuleCall.parse_eq_ok_iff` (the parser accepts these tokens and no others), `RuleCall.Form.unique` (a
token is put together in one way only) and `RuleParam.isReadAs_iff` (a raw parameter is a number exactly when it is
written as a plain literal, and the reader of numerals never refuses one).
-/

namespace FieldRules

/-! ### Raw parameters -/

namespace RuleParam

/-- A raw parameter written as a plain literal stands for the number of the numeral that is read from it, with a
zero put before a leading point; any other one stands for itself. -/
inductive IsReadAs (raw : String) : RuleParam → Prop
  | number {n : Numeral} : Numeral.NumericText raw.toList → Numeral.ofText? (Numeral.padded raw.toList) = some n →
      IsReadAs raw (number n.toBinary64)
  | text : ¬ Numeral.NumericText raw.toList → IsReadAs raw (text raw)

theorem isNumeric_iff {raw : String} : isNumeric raw ↔ Numeral.NumericText raw.toList :=
  Numeral.isSome_ofLiteral?_iff

theorem ofRaw_of_literal {raw : String} {n : Numeral} (h : Numeral.ofLiteral? raw.toList = some n) :
    ofRaw raw = number n.toBinary64 := by
  obtain ⟨m, hm, hvalue⟩ := Numeral.ofText?_padded h
  have hnum : isNumeric raw := Option.isSome_of_eq_some h
  rw [ofRaw, if_pos hnum, hm]
  simp only [hvalue]

theorem ofRaw_of_not_numeric {raw : String} (h : ¬ Numeral.NumericText raw.toList) : ofRaw raw = text raw := by
  rw [ofRaw, if_neg (mt isNumeric_iff.1 h)]

/-- A raw parameter is read in one way, and the reader of numerals never refuses a plain literal. -/
theorem isReadAs_iff {raw : String} {p : RuleParam} : IsReadAs raw p ↔ p = ofRaw raw := by
  constructor
  · rintro (⟨h, hn⟩ | h)
    · rw [ofRaw, if_pos (isNumeric_iff.2 h), hn]
    · rw [ofRaw_of_not_numeric h]
  · rintro rfl
    by_cases h : Numeral.NumericText raw.toList
    · obtain ⟨n, hn⟩ := Option.isSome_iff_exists.1 (Numeral.isSome_ofLiteral?_iff.2 h)
      obtain ⟨m, hm, hvalue⟩ := Numeral.ofText?_padded hn
      rw [ofRaw_of_literal hn, ← hvalue]
      exact .number h hm
    · rw [ofRaw_of_not_numeric h]
      exact .text h

private theorem forall₂_isReadAs_iff {raws : List String} {params : List RuleParam} :
    List.Forall₂ IsReadAs raws params ↔ params = raws.map ofRaw := by
  have hread : (IsReadAs : String → RuleParam → Prop) = fun raw p => ofRaw raw = p := by
    funext raw p
    exact propext (isReadAs_iff.trans eq_comm)
  rw [hread, ← List.forall₂_map_left_iff, List.forall₂_eq_eq_eq, eq_comm]

end RuleParam

namespace RuleCall

/-! ### Names and what stands between parentheses -/

/-- A non-empty text of lower-case ASCII letters, underscores and dashes. -/
def IsName (s : String) : Prop := s ≠ "" ∧ ∀ c ∈ s.toList, ('a' ≤ c ∧ c ≤ 'z') ∨ c = '_' ∨ c = '-'

/-- A non-empty text on one line. -/
def IsInner (s : String) : Prop :=
  s ≠ "" ∧ ∀ c ∈ s.toList, c ≠ '\n' ∧ c ≠ '\r' ∧ c ≠ '\u2028' ∧ c ≠ '\u2029'

/-- How a token is put together: a name alone, or a name and something between parentheses behind it. -/
inductive Form : String → String → Option String → Prop
  | bare {name : String} : IsName name → Form name name none
  | applied {name inner : String} : IsName name → IsInner inner →
      Form (name ++ "(" ++ inner ++ ")") name (some inner)

private theorem isNameChar_iff {c : Char} : isNameChar c ↔ ('a' ≤ c ∧ c ≤ 'z') ∨ c = '_' ∨ c = '-' := by
  have hlower : c.isLower = (decide ('a' ≤ c) && decide (c ≤ 'z')) := rfl
  simp [isNameChar, hlower, or_assoc]

theorem isName_iff {s : String} : IsName s ↔ s.toList ≠ [] ∧ ∀ c ∈ s.toList, isNameChar c := by
  simp only [IsName, isNameChar_iff, ne_eq, String.toList_eq_nil_iff]

theorem isInner_iff {s : String} : IsInner s ↔ s.toList ≠ [] ∧ ∀ c ∈ s.toList, ¬ Text.isLineBreak c := by
  simp [IsInner, Text.isLineBreak, not_or, and_assoc]

instance (s : String) : Decidable (IsName s) :=
  decidable_of_iff (s.toList ≠ [] ∧ s.toList.all isNameChar) (by rw [isName_iff, List.all_eq_true])

instance (s : String) : Decidable (IsInner s) :=
  decidable_of_iff (s.toList ≠ [] ∧ s.toList.all fun c => !Text.isLineBreak c) (by simp [isInner_iff])

/-! ### The parser on the forms -/

private theorem inner_eq_ok_iff {cs is : List Char} :
    inner cs = .ok is ↔ cs = '(' :: (is ++ [')']) ∧ is ≠ [] ∧ ∀ c ∈ is, ¬ Text.isLineBreak c := by
  constructor
  · intro h
    unfold inner at h
    split at h
    · rename_i rest
      split at h
      · rename_i hlast
        have hrest : rest.dropLast ++ [')'] = rest := List.dropLast_append_getLast? ')' hlast
        simp only at h
        split at h
        · cases h
        · rename_i hne
          split at h
          · cases h
          · rename_i hbreak
            obtain rfl := Except.ok.inj h
            exact ⟨by rw [hrest], by simpa using hne, by simpa using hbreak⟩
      · cases h
    · cases h
    · cases h
  · rintro ⟨rfl, hne, hbreak⟩
    have hany : is.any Text.isLineBreak = false := by
      rw [List.any_eq_false]
      exact hbreak
    simp [inner, hne, hany]

/-- The raw parameters in what stands between the parentheses. -/
def rawParams : Option String → List String
  | none => []
  | some inner => Text.split ',' inner

/-- What follows the name of a token. -/
def suffix : Option String → List Char
  | none => []
  | some inner => '(' :: (inner.toList ++ [')'])

theorem suffix_inj {inner inner' : Option String} : suffix inner = suffix inner' ↔ inner = inner' := by
  cases inner <;> cases inner' <;> simp [suffix, String.toList_inj]

private theorem parseParams_eq_ok_iff {cs : List Char} {params : List RuleParam} :
    parseParams cs = .ok params ↔
      ∃ inner, (∀ s ∈ inner, IsInner s) ∧ cs = suffix inner ∧ params = (rawParams inner).map RuleParam.ofRaw := by
  -- the pieces are read as lists of characters, the raw parameters are strings
  have hread (is : List Char) : (Text.pieces ',' is).map (fun cs => RuleParam.ofRaw (String.ofList cs)) =
      (rawParams (some (String.ofList is))).map RuleParam.ofRaw := by
    rw [rawParams, Text.split, String.toList_ofList, List.map_map]
    rfl
  constructor
  · intro h
    cases cs with
    | nil =>
      obtain rfl := Except.ok.inj h
      exact ⟨none, by simp, rfl, rfl⟩
    | cons c rest =>
      cases hinner : inner (c :: rest) with
      | error reason =>
        simp only [parseParams, hinner] at h
        cases h
      | ok is =>
        simp only [parseParams, hinner] at h
        obtain rfl := Except.ok.inj h
        obtain ⟨htext, hne, hbreak⟩ := inner_eq_ok_iff.1 hinner
        refine ⟨some (String.ofList is), ?_, by simp [suffix, htext], hread is⟩
        intro s hs
        obtain rfl := Option.some.inj hs
        exact isInner_iff.2 ⟨by simpa using hne, by simpa using hbreak⟩
  · rintro ⟨inner', hin, rfl, rfl⟩
    cases inner' with
    | none => rfl
    | some s =>
      obtain ⟨hne, hbreak⟩ := isInner_iff.1 (hin s rfl)
      have hinner : inner ('(' :: (s.toList ++ [')'])) = .ok s.toList := inner_eq_ok_iff.2 ⟨rfl, hne, hbreak⟩
      have hs := hread s.toList
      rw [String.ofList_toList] at hs
      rw [← hs]
      simp only [suffix, parseParams, hinner]
      rfl

theorem form_iff {token name : String} {inner : Option String} :
    Form token name inner ↔
      IsName name ∧ (∀ s ∈ inner, IsInner s) ∧ token.toList = name.toList ++ suffix inner := by
  constructor
  · rintro (hname | ⟨hname, hinner⟩)
    · exact ⟨hname, by simp, by simp [suffix]⟩
    · exact ⟨hname, by simpa using hinner, by simp [suffix]⟩
  · rintro ⟨hname, hinner, htext⟩
    cases inner with
    | none =>
      obtain rfl : token = name := String.toList_inj.1 (by simpa [suffix] using htext)
      exact .bare hname
    | some s =>
      obtain rfl : token = name ++ "(" ++ s ++ ")" := String.toList_inj.1 (by simpa [suffix] using htext)
      exact .applied hname (hinner s rfl)

/-- The name of a token ends where its letters end. -/
private theorem span_form {name : List Char} (hname : ∀ c ∈ name, isNameChar c) (inner : Option String) :
    (name ++ suffix inner).takeWhile isNameChar = name ∧
      (name ++ suffix inner).dropWhile isNameChar = suffix inner := by
  have hparen : isNameChar '(' = false := by decide
  rw [List.takeWhile_append_of_pos hname, List.dropWhile_append_of_pos hname]
  cases inner <;> simp [suffix, hparen]

/-- The parser accepts the tokens of the grammar and no others. -/
theorem parse_eq_ok_iff {token : String} {call : RuleCall} :
    parse token = .ok call ↔
      ∃ inner, Form token call.name inner ∧ call.params = (rawParams inner).map RuleParam.ofRaw := by
  constructor
  · intro h
    have htext := List.takeWhile_append_dropWhile (p := isNameChar) (l := token.toList)
    have hname : ∀ c ∈ token.toList.takeWhile isNameChar, isNameChar c := fun c hc => List.mem_takeWhile_imp hc
    unfold parse at h
    simp only at h
    split at h
    · cases h
    · cases h
    · -- the name is not empty: the two empty cases are those that are refused above
      rename_i hempty hstart
      have hne : token.toList.takeWhile isNameChar ≠ [] := by
        intro hnil
        cases hcs : token.toList with
        | nil => exact hempty hnil hcs
        | cons c rest => exact hstart c rest hnil hcs
      cases hread : parseParams (token.toList.dropWhile isNameChar) with
      | error reason =>
        rw [hread] at h
        cases h
      | ok params =>
        rw [hread] at h
        obtain rfl := Except.ok.inj h
        obtain ⟨inner, hinner, hrest, hparams⟩ := parseParams_eq_ok_iff.1 hread
        refine ⟨inner, form_iff.2 ⟨isName_iff.2 ?_, hinner, ?_⟩, hparams⟩
        · exact ⟨by simpa using hne, by simpa using hname⟩
        · rw [String.toList_ofList, ← hrest, htext]
  · rintro ⟨inner, hform, hparams⟩
    obtain ⟨hname, hinner, htext⟩ := form_iff.1 hform
    obtain ⟨hne, hchars⟩ := isName_iff.1 hname
    obtain ⟨htake, hdrop⟩ := span_form hchars inner
    have hread : parseParams (suffix inner) = .ok call.params := parseParams_eq_ok_iff.2 ⟨inner, hinner, rfl, hparams⟩
    unfold parse
    simp only [htext, htake]
    split
    · contradiction
    · contradiction
    · rw [hdrop, hread, String.ofList_toList]
      rfl

theorem isInner_of_numericText {raw : String} (h : Numeral.NumericText raw.toList) : IsInner raw := by
  refine isInner_iff.2 ⟨h.ne_nil, fun c hc => ?_⟩
  rcases h.mem hc with hdigit | rfl | rfl
  · exact Text.of_ascii (p := fun c => c.isDigit → ¬ Text.isLineBreak c) (by decide)
      (Numeral.toNat_lt_of_isDigit hdigit) hdigit
  · decide
  · decide

/-- A name with one parameter between parentheses. -/
theorem parse_applied {name inner : String} (hname : IsName name) (hinner : IsInner inner) (hcomma : ',' ∉ inner.toList) :
    parse (name ++ "(" ++ inner ++ ")") = .ok ⟨name, [RuleParam.ofRaw inner]⟩ := by
  refine parse_eq_ok_iff.2 ⟨some inner, .applied hname hinner, ?_⟩
  rw [rawParams, Text.split_of_not_mem hcomma, List.map_singleton]

theorem Form.unique {token name name' : String} {inner inner' : Option String} (h : Form token name inner)
    (h' : Form token name' inner') : name' = name ∧ inner' = inner := by
  have hparse : parse token = .ok ⟨name, (rawParams inner).map RuleParam.ofRaw⟩ := parse_eq_ok_iff.2 ⟨inner, h, rfl⟩
  have hparse' : parse token = .ok ⟨name', (rawParams inner').map RuleParam.ofRaw⟩ :=
    parse_eq_ok_iff.2 ⟨inner', h', rfl⟩
  obtain rfl : name = name' := congrArg RuleCall.name (Except.ok.inj (hparse.symm.trans hparse'))
  have htext := (form_iff.1 h').2.2.symm.trans (form_iff.1 h).2.2
  exact ⟨rfl, suffix_inj.1 (List.append_cancel_left htext)⟩

/-! ### What a token stands for -/

/-- The parameters that go with what stands between the parentheses: none when there are no parentheses, and
otherwise one for each piece between the commas. -/
def Denotes : Option String → List RuleParam → Prop
  | none, params => params = []
  | some inner, params => ∃ pieces : List String, (∀ s ∈ pieces, ',' ∉ s.toList) ∧ ",".intercalate pieces = inner ∧
      pieces.length = inner.toList.count ',' + 1 ∧ List.Forall₂ RuleParam.IsReadAs pieces params

private theorem denotes_iff {inner : Option String} {params : List RuleParam} :
    Denotes inner params ↔ params = (rawParams inner).map RuleParam.ofRaw := by
  cases inner with
  | none => rfl
  | some inner =>
    have hcomma : ",".toList = [','] := rfl
    simp only [Denotes, rawParams, RuleParam.forall₂_isReadAs_iff]
    constructor
    · rintro ⟨pieces, hpieces, rfl, hlength, rfl⟩
      have hne : pieces ≠ [] := List.ne_nil_of_length_pos (by omega)
      rw [Text.split_intercalate hcomma hne hpieces]
    · rintro rfl
      exact ⟨Text.split ',' inner, Text.not_mem_of_mem_split, Text.intercalate_split hcomma inner,
        Text.length_split ',' inner, rfl⟩

theorem read_eq_ok_iff {token : String} {call : RuleCall} : read token = .ok call ↔ parse token = .ok call := by
  unfold read
  cases parse token <;> simp [Except.mapError]

/-- The parser accepts exactly its grammar. A token is read as a call exactly when it is a name, or a name and
something on one line between parentheses; it is put together in one way only, and the call has that name and the
parameters between the commas. Any other token is malformed, and the fault names the token and no field. -/
theorem read_accepts_grammar (token : String) :
    ((∃ call, read token = .ok call) ↔ ∃ name inner, Form token name inner) ∧
    (∀ call, read token = .ok call ↔ ∃ inner, Form token call.name inner ∧ Denotes inner call.params) ∧
    (∀ name inner name' inner', Form token name inner → Form token name' inner' → name' = name ∧ inner' = inner) ∧
    ((∃ reason, read token = .error (.malformed token none reason)) ↔ ¬ ∃ name inner, Form token name inner) := by
  have hread : ∀ call, read token = .ok call ↔ ∃ inner, Form token call.name inner ∧ Denotes inner call.params := by
    intro call
    simp only [read_eq_ok_iff, parse_eq_ok_iff, denotes_iff]
  have haccept : (∃ call, read token = .ok call) ↔ ∃ name inner, Form token name inner := by
    constructor
    · rintro ⟨call, hcall⟩
      obtain ⟨inner, hform, -⟩ := (hread call).1 hcall
      exact ⟨call.name, inner, hform⟩
    · rintro ⟨name, inner, hform⟩
      exact ⟨⟨name, (rawParams inner).map RuleParam.ofRaw⟩, (hread _).2 ⟨inner, hform, denotes_iff.2 rfl⟩⟩
  refine ⟨haccept, hread, fun name inner name' inner' => Form.unique, ?_⟩
  rw [← haccept]
  unfold read
  cases parse token <;> simp [Except.mapError]

end RuleCall

end FieldRules
