import FieldRules.Proofs.Number.Display
import FieldRules.Proofs.Rule.Grammar

/-!
# Reading canonical forms back

When the canonical form of a rule call is read as the call again, and when a list of calls is read back from the rule
string that is made of them. The key facts: `RuleParam.ofRaw_display` (what a parameter becomes when its text is read
again), `RuleCall.exists_parse_canonical_same_iff` (which calls are read back from their canonical forms),
`RuleCall.reparse_canonical` (what becomes of a call that was itself read from a token) and
`RuleCall.readBack_iff_faithful` (which lists of calls are read back from their rule strings).
-/

namespace FieldRules

open Binary64

/-! ### Parameters -/

namespace RuleParam

/-- What a parameter becomes when its text is read again: a zero loses its sign, and a number that is not plain
becomes text. -/
def reread : RuleParam → RuleParam
  | number x => if x.IsPlain then number (if x.isZero then zero false else x) else text (number x).display
  | text s => text s

theorem reread_of_isPlain {x : Binary64} (h : x.IsPlain) :
    (number x).reread = number (if x.isZero then zero false else x) := if_pos h

theorem reread_of_not_isPlain {x : Binary64} (h : ¬ x.IsPlain) : (number x).reread = text (number x).display :=
  if_neg h

/-- A parameter that is equal to the one that its text is read as. -/
def IsReadBack : RuleParam → Prop
  | number x => x.IsPlain
  | text s => ¬ Numeral.NumericText s.toList

/-- The text of a number that is not plain is no literal, so only texts can be taken for something else. -/
theorem ofRaw_display {p : RuleParam} (h : ∀ s, p = text s → ¬ Numeral.NumericText s.toList) :
    ofRaw p.display = p.reread := by
  cases p with
  | text s => exact ofRaw_of_not_numeric (h s rfl)
  | number x =>
    by_cases hplain : x.IsPlain
    · obtain ⟨n, hn, hvalue⟩ := NumberStyle.ofLiteral?_render hplain
      rw [reread_of_isPlain hplain, ← hvalue]
      exact ofRaw_of_literal hn
    · have hnone := NumberStyle.ofLiteral?_render_of_not_isPlain hplain
      rw [reread_of_not_isPlain hplain]
      refine ofRaw_of_not_numeric ?_
      rw [← Numeral.isSome_ofLiteral?_iff]
      simp [display, hnone]

private theorem equals_unsigned {x : Binary64} (h : x.isFinite) : (if x.isZero then zero false else x).equals x := by
  cases x with
  | nan => cases h
  | infinity negative => cases h
  | finite negative rank =>
    by_cases h0 : rank.val = 0
    · have htop : 0 < top := by decide
      simp [isZero, h0, zero, ofRank, htop, equals, place]
    · simp [isZero, h0, equals, place]

private theorem reread_same_iff {p : RuleParam} : p.reread.same p ↔ ∀ x, p = number x → x.IsPlain := by
  cases p with
  | text s => simp [reread, same]
  | number x =>
    by_cases hplain : x.IsPlain
    · rw [reread_of_isPlain hplain]
      simpa [same, hplain] using equals_unsigned hplain.1
    · rw [reread_of_not_isPlain hplain]
      simpa [same] using hplain

/-- A parameter is equal to the one that its text is read as exactly when it is a plain number, or a text that is no
literal. -/
private theorem ofRaw_display_same_iff {p : RuleParam} : (ofRaw p.display).same p ↔ p.IsReadBack := by
  by_cases h : ∀ s, p = text s → ¬ Numeral.NumericText s.toList
  · rw [ofRaw_display h, reread_same_iff]
    cases p with
    | number x => simp [IsReadBack]
    | text s => simpa [IsReadBack] using h s rfl
  · push Not at h
    obtain ⟨s, rfl, hnum⟩ := h
    obtain ⟨n, hn⟩ := Option.isSome_iff_exists.1 (Numeral.isSome_ofLiteral?_iff.2 hnum)
    have hread : ofRaw (text s).display = number n.toBinary64 := ofRaw_of_literal hn
    rw [hread]
    simp [same, IsReadBack, hnum]

/-- Numbers are written without the characters that divide parameters and rules, on one line. -/
theorem not_mem_display_number {c : Char} (h : NumberStyle.isNumberChar c = false) (x : Binary64) :
    c ∉ (number x).display.toList := by
  intro hc
  have hall := List.all_eq_true.1 (NumberStyle.all_render x) c hc
  rw [h] at hall
  cases hall

private theorem display_number_ne_empty (x : Binary64) : (number x).display ≠ "" := by
  intro hempty
  have hnil : (NumberStyle.display.render x).toList = [] := String.toList_eq_nil_iff.2 hempty
  by_cases hplain : x.IsPlain
  · obtain ⟨n, hn, -⟩ := NumberStyle.ofLiteral?_render hplain
    rw [hnil] at hn
    cases hn
  · obtain ⟨c, hc, -⟩ := NumberStyle.exists_letter_render hplain
    rw [hnil] at hc
    cases hc

end RuleParam

namespace RuleCall

/-! ### Canonical forms -/

/-- The texts of the parameters with commas between them, when there are parameters. -/
def joined : List RuleParam → Option String
  | [] => none
  | params => some (",".intercalate (params.map RuleParam.display))

private theorem joined_of_ne_nil {params : List RuleParam} (h : params ≠ []) :
    joined params = some (",".intercalate (params.map RuleParam.display)) := by
  unfold joined
  split
  · contradiction
  · rfl

private theorem toList_canonical (call : RuleCall) :
    call.canonical.toList = call.name.toList ++ suffix (joined call.params) := by
  obtain ⟨name, params⟩ := call
  cases params with
  | nil => simp [canonical, joined, suffix]
  | cons p rest => simp [canonical, joined, suffix]

/-- The canonical form is put together in one way when the name is the one of the call. -/
private theorem form_canonical_iff {call : RuleCall} {inner : Option String} :
    Form call.canonical call.name inner ↔
      IsName call.name ∧ (∀ s ∈ inner, IsInner s) ∧ inner = joined call.params := by
  rw [form_iff, toList_canonical, List.append_cancel_left_eq, suffix_inj, eq_comm (a := inner)]

private theorem mem_joined {c : Char} (h : c ≠ ',') {params : List RuleParam} {s : String}
    (hs : joined params = some s) :
    c ∈ s.toList ↔ ∃ p ∈ params, c ∈ p.display.toList := by
  cases params with
  | nil => cases hs
  | cons p rest =>
    obtain rfl := Option.some.inj hs
    have hcomma : ",".toList = [','] := rfl
    rw [String.toList_intercalate, hcomma, Text.mem_intercalate h]
    simp

private theorem joined_ne_some_empty_iff {params : List RuleParam} : joined params ≠ some "" ↔ params ≠ [.text ""] := by
  cases params with
  | nil => simp [joined]
  | cons p rest =>
    have hcomma : ",".toList = [','] := rfl
    rw [joined_of_ne_nil (by simp), ne_eq, Option.some.injEq, ← String.toList_eq_nil_iff, String.toList_intercalate,
      hcomma, Text.intercalate_eq_nil_iff (by simp)]
    have hp : p.display = "" ↔ p = .text "" := by
      cases p with
      | text s => simp [RuleParam.display]
      | number x => simpa using RuleParam.display_number_ne_empty x
    simp [hp]

private theorem isInner_joined_iff {params : List RuleParam} :
    (∀ s ∈ joined params, IsInner s) ↔
      params ≠ [.text ""] ∧ ∀ p ∈ params, ∀ c ∈ p.display.toList, ¬ Text.isLineBreak c := by
  have hcomma : ¬ Text.isLineBreak ',' := by decide
  cases hs : joined params with
  | none =>
    cases params with
    | nil => simp
    | cons p rest => simp [joined] at hs
  | some s =>
    have hempty : s ≠ "" ↔ params ≠ [.text ""] := by
      rw [← joined_ne_some_empty_iff, hs]
      simp
    have hbreak : (∀ c ∈ s.toList, ¬ Text.isLineBreak c) ↔
        ∀ p ∈ params, ∀ c ∈ p.display.toList, ¬ Text.isLineBreak c := by
      constructor
      · intro h p hp c hc hline
        have hne : c ≠ ',' := by rintro rfl; exact hcomma hline
        exact h c ((mem_joined hne hs).2 ⟨p, hp, hc⟩) hline
      · intro h c hc hline
        have hne : c ≠ ',' := by rintro rfl; exact hcomma hline
        obtain ⟨p, hp, hcp⟩ := (mem_joined hne hs).1 hc
        exact h p hp c hcp hline
    simp only [Option.mem_def, Option.some.injEq, forall_eq', isInner_iff, hbreak, ← hempty, ne_eq,
      String.toList_eq_nil_iff]

private theorem rawParams_joined {params : List RuleParam} (h : ∀ p ∈ params, ',' ∉ p.display.toList) :
    rawParams (joined params) = params.map RuleParam.display := by
  cases params with
  | nil => rfl
  | cons p rest =>
    rw [joined_of_ne_nil (by simp), rawParams]
    refine Text.split_intercalate rfl (by simp) ?_
    simpa using h

private theorem not_mem_of_length_rawParams {params : List RuleParam}
    (h : (rawParams (joined params)).length = params.length) : ∀ p ∈ params, ',' ∉ p.display.toList := by
  cases params with
  | nil => simp
  | cons p rest =>
    rw [joined_of_ne_nil (by simp), rawParams] at h
    have hcomma : ",".toList = [','] := rfl
    have hlength : (p :: rest).length = ((p :: rest).map RuleParam.display).length := by simp
    rw [hlength] at h
    simpa using Text.not_mem_of_length_split hcomma (by simp) h

private theorem same_iff {a b : RuleCall} :
    a.same b ↔ a.name = b.name ∧ List.Forall₂ (fun p q => p.same q) a.params b.params := by
  simp [same, List.forall₂_iff_zip, and_assoc]

/-! ### One call -/

/-- A call whose canonical form divides into its name and the texts of its parameters. -/
structure Separable (call : RuleCall) : Prop where
  name : IsName call.name
  nonempty : call.params ≠ [.text ""]
  oneLine : ∀ p ∈ call.params, ∀ c ∈ p.display.toList, ¬ Text.isLineBreak c
  noComma : ∀ p ∈ call.params, ',' ∉ p.display.toList

/-- The canonical form of a separable call is read as a call whose parameters are read from the texts of its own. -/
private theorem parse_canonical {call : RuleCall} (h : call.Separable) :
    parse call.canonical = .ok ⟨call.name, call.params.map fun p => RuleParam.ofRaw p.display⟩ := by
  have hinner := isInner_joined_iff.2 ⟨h.nonempty, h.oneLine⟩
  refine parse_eq_ok_iff.2 ⟨joined call.params, form_canonical_iff.2 ⟨h.name, hinner, rfl⟩, ?_⟩
  rw [rawParams_joined h.noComma, List.map_map]
  rfl

/-- A call is read back from its canonical form exactly when it is separable and each parameter is read back from its
text. -/
theorem exists_parse_canonical_same_iff {call : RuleCall} :
    (∃ back, parse call.canonical = .ok back ∧ back.same call) ↔
      call.Separable ∧ ∀ p ∈ call.params, p.IsReadBack := by
  have hsame (params : List RuleParam) :
      List.Forall₂ (fun p q => p.same q) (params.map fun p => RuleParam.ofRaw p.display) params ↔
        ∀ p ∈ params, p.IsReadBack := by
    rw [List.forall₂_map_left_iff, List.forall₂_same]
    simp only [RuleParam.ofRaw_display_same_iff]
  constructor
  · rintro ⟨back, hparse, hback⟩
    obtain ⟨inner, hform, hparams⟩ := parse_eq_ok_iff.1 hparse
    obtain ⟨hname, hforall⟩ := same_iff.1 hback
    rw [hname] at hform
    obtain ⟨hcall, hinner, rfl⟩ := form_canonical_iff.1 hform
    obtain ⟨hne, hbreak⟩ := isInner_joined_iff.1 hinner
    -- the call that is read has a parameter for each comma, so the texts cannot have commas of their own
    have hcomma : ∀ p ∈ call.params, ',' ∉ p.display.toList := by
      refine not_mem_of_length_rawParams ?_
      have hlength := hforall.length_eq
      rwa [hparams, List.length_map] at hlength
    rw [hparams, rawParams_joined hcomma, List.map_map] at hforall
    exact ⟨⟨hcall, hne, hbreak, hcomma⟩, (hsame _).1 hforall⟩
  · rintro ⟨h, hread⟩
    exact ⟨_, parse_canonical h, same_iff.2 ⟨rfl, (hsame _).2 hread⟩⟩

/-! ### Calls that were read from tokens -/

private theorem not_isNumberChar_of_isLineBreak {c : Char} (h : Text.isLineBreak c) :
    NumberStyle.isNumberChar c = false := by
  simp only [Text.isLineBreak, Bool.or_eq_true, beq_iff_eq] at h
  rcases h with ((rfl | rfl) | rfl) | rfl <;> decide

private theorem mem_of_mem_display_ofRaw {c : Char} (hc : NumberStyle.isNumberChar c = false) {raw : String}
    (h : c ∈ (RuleParam.ofRaw raw).display.toList) : c ∈ raw.toList := by
  cases hraw : RuleParam.ofRaw raw with
  | number x =>
    rw [hraw] at h
    exact absurd h (RuleParam.not_mem_display_number hc x)
  | text s =>
    obtain ⟨-⟩ | hnum := RuleParam.isReadAs_iff.2 hraw.symm
    rwa [hraw] at h

/-- A call that was read from a token is separable. -/
private theorem separable_of_parse {token : String} {call : RuleCall} (h : parse token = .ok call) :
    call.Separable := by
  obtain ⟨inner, hform, hparams⟩ := parse_eq_ok_iff.1 h
  obtain ⟨hname, hinner, -⟩ := form_iff.1 hform
  cases inner with
  | none =>
    have hnil : call.params = [] := hparams
    exact ⟨hname, by simp [hnil], by simp [hnil], by simp [hnil]⟩
  | some s =>
    obtain ⟨hne, hbreak⟩ := isInner_iff.1 (hinner s rfl)
    have hpiece : ∀ p ∈ call.params, ∃ raw ∈ Text.split ',' s, RuleParam.ofRaw raw = p := by
      intro p hp
      rw [hparams] at hp
      exact List.mem_map.1 hp
    refine ⟨hname, ?_, ?_, ?_⟩
    · -- a single empty text could only come from nothing between the parentheses
      intro hsingle
      rw [hsingle] at hparams
      obtain ⟨raw, hraw, hempty⟩ := List.map_eq_singleton_iff.1 hparams.symm
      obtain ⟨-⟩ | hnum := RuleParam.isReadAs_iff.2 hempty.symm
      have hcomma : ",".toList = [','] := rfl
      have hsplit : Text.split ',' s = [""] := hraw
      have hs := Text.intercalate_split hcomma s
      rw [hsplit, String.intercalate_singleton] at hs
      exact hne (String.toList_eq_nil_iff.2 hs.symm)
    · intro p hp c hc hline
      obtain ⟨raw, hraw, rfl⟩ := hpiece p hp
      have hmem := mem_of_mem_display_ofRaw (not_isNumberChar_of_isLineBreak hline) hc
      exact hbreak c (Text.mem_of_mem_split hraw hmem) hline
    · intro p hp hc
      obtain ⟨raw, hraw, rfl⟩ := hpiece p hp
      exact Text.not_mem_of_mem_split raw hraw (mem_of_mem_display_ofRaw (by decide) hc)

/-- No text among the parameters of a call that was read from a token is a literal. -/
private theorem not_numeric_of_parse {token : String} {call : RuleCall} (h : parse token = .ok call) :
    ∀ p ∈ call.params, ∀ s, p = .text s → ¬ Numeral.NumericText s.toList := by
  intro p hp s hs
  obtain ⟨inner, -, hparams⟩ := parse_eq_ok_iff.1 h
  rw [hparams] at hp
  obtain ⟨raw, -, rfl⟩ := List.mem_map.1 hp
  obtain ⟨-⟩ | hnum := RuleParam.isReadAs_iff.2 hs.symm
  exact hnum

/-- A call that was read from a token has a canonical form that is read as a call of the same name, with each
parameter as its text is read again. This call is equal to the first one exactly when all the numbers among the
parameters are plain: a number written with an exponent, or an infinite one, comes back as text. -/
theorem reparse_canonical {token : String} {call : RuleCall} (h : parse token = .ok call) :
    parse call.canonical = .ok ⟨call.name, call.params.map RuleParam.reread⟩ ∧
      ((RuleCall.mk call.name (call.params.map RuleParam.reread)).same call ↔
        ∀ x, .number x ∈ call.params → x.IsPlain) := by
  constructor
  · have hreread : call.params.map (fun p => RuleParam.ofRaw p.display) = call.params.map RuleParam.reread :=
      List.map_congr_left fun p hp => RuleParam.ofRaw_display (not_numeric_of_parse h p hp)
    rw [parse_canonical (separable_of_parse h), hreread]
  · rw [same_iff, List.forall₂_map_left_iff, List.forall₂_same]
    simp only [RuleParam.reread_same_iff, true_and]
    constructor
    · exact fun hplain x hx => hplain _ hx x rfl
    · rintro hplain p hp x rfl
      exact hplain x hp

theorem reparse_canonical_half :
    let call : RuleCall := ⟨"a", [.number (ofDecimal true ⟨5, -1⟩), .text "x"]⟩
    parse "a(-.5,x)" = .ok call ∧ parse call.canonical = .ok ⟨call.name, call.params.map RuleParam.reread⟩ ∧
      (RuleCall.mk call.name (call.params.map RuleParam.reread)).same call := by
  have hparse : parse "a(-.5,x)" = .ok ⟨"a", [.number (ofDecimal true ⟨5, -1⟩), .text "x"]⟩ := by decide +kernel
  have hplain : (ofDecimal true ⟨5, -1⟩).IsPlain := by decide +kernel
  obtain ⟨hback, hsame⟩ := reparse_canonical hparse
  exact ⟨hparse, hback, hsame.2 (by simpa using hplain)⟩

/-- The least power of ten that is written with an exponent comes back as text. -/
theorem not_reparse_same :
    ¬ ∀ token call, parse token = .ok call → ∃ back, parse call.canonical = .ok back ∧ back.same call := by
  intro h
  have hparse : parse "a(1000000000000000000000)" = .ok ⟨"a", [.number (ofDecimal false ⟨1, 21⟩)]⟩ := by
    decide +kernel
  have htext : parse (canonical ⟨"a", [.number (ofDecimal false ⟨1, 21⟩)]⟩) = .ok ⟨"a", [.text "1e+21"]⟩ := by
    decide +kernel
  obtain ⟨back, hback, hsame⟩ := h _ _ hparse
  rw [htext] at hback
  obtain rfl := Except.ok.inj hback
  simp [same, RuleParam.same] at hsame

/-! ### Lists of calls -/

/-- A call that is read back from a rule string: its name is one, its parameters are not a single empty text, no text
among them divides a rule string or is a literal, and the numbers among them are plain. -/
structure Faithful (call : RuleCall) : Prop where
  name : IsName call.name
  nonempty : call.params ≠ [.text ""]
  texts : ∀ s, .text s ∈ call.params →
    (∀ c ∈ s.toList, c ≠ ',' ∧ c ≠ '|' ∧ c ≠ '\n' ∧ c ≠ '\r' ∧ c ≠ '\u2028' ∧ c ≠ '\u2029') ∧
      ¬ Numeral.NumericText s.toList
  numbers : ∀ x, .number x ∈ call.params → x.IsPlain

private theorem mem_display_iff {c : Char} (hc : NumberStyle.isNumberChar c = false) {p : RuleParam} :
    c ∈ p.display.toList ↔ ∃ s, p = .text s ∧ c ∈ s.toList := by
  cases p with
  | number x => simp [RuleParam.not_mem_display_number hc x]
  | text s => simp [RuleParam.display]

private theorem faithful_iff {call : RuleCall} :
    call.Faithful ↔
      (call.Separable ∧ ∀ p ∈ call.params, p.IsReadBack) ∧ ∀ p ∈ call.params, '|' ∉ p.display.toList := by
  have hcomma : NumberStyle.isNumberChar ',' = false := by decide
  have hbar : NumberStyle.isNumberChar '|' = false := by decide
  constructor
  · intro h
    refine ⟨⟨⟨h.name, h.nonempty, ?_, ?_⟩, ?_⟩, ?_⟩
    · intro p hp c hc hline
      obtain ⟨s, rfl, hs⟩ := (mem_display_iff (not_isNumberChar_of_isLineBreak hline)).1 hc
      obtain ⟨-, -, h1, h2, h3, h4⟩ := (h.texts s hp).1 c hs
      simp [Text.isLineBreak, h1, h2, h3, h4] at hline
    · intro p hp hc
      obtain ⟨s, rfl, hs⟩ := (mem_display_iff hcomma).1 hc
      exact ((h.texts s hp).1 _ hs).1 rfl
    · intro p hp
      cases p with
      | number x => exact h.numbers x hp
      | text s => exact (h.texts s hp).2
    · intro p hp hc
      obtain ⟨s, rfl, hs⟩ := (mem_display_iff hbar).1 hc
      exact ((h.texts s hp).1 _ hs).2.1 rfl
  · rintro ⟨⟨hsep, hread⟩, hnobar⟩
    refine ⟨hsep.name, hsep.nonempty, ?_, fun x hx => hread _ hx⟩
    intro s hs
    refine ⟨?_, hread _ hs⟩
    intro c hc
    have hline := hsep.oneLine _ hs c hc
    simp only [Text.isLineBreak, Bool.or_eq_true, beq_iff_eq, not_or] at hline
    obtain ⟨⟨⟨h1, h2⟩, h3⟩, h4⟩ := hline
    refine ⟨?_, ?_, h1, h2, h3, h4⟩
    · rintro rfl
      exact hsep.noComma _ hs hc
    · rintro rfl
      exact hnobar _ hs hc

private theorem bar_mem_canonical_iff {call : RuleCall} (h : IsName call.name) :
    '|' ∈ call.canonical.toList ↔ ∃ p ∈ call.params, '|' ∈ p.display.toList := by
  have hname : '|' ∉ call.name.toList := by
    intro hmem
    have := (isName_iff.1 h).2 _ hmem
    revert this
    decide
  rw [toList_canonical, List.mem_append]
  cases hs : joined call.params with
  | none =>
    have hnil : call.params = [] := by
      by_contra hne
      simp [joined_of_ne_nil hne] at hs
    simp [suffix, hname, hnil]
  | some s =>
    rw [← mem_joined (by decide) hs]
    simp [suffix, hname]

private theorem mapM_eq_ok_iff {α β ε : Type} {f : α → Except ε β} {l : List α} {l' : List β} :
    l.mapM f = .ok l' ↔ List.Forall₂ (fun x y => f x = .ok y) l l' := by
  induction l generalizing l' with
  | nil => simp [pure, Except.pure, eq_comm]
  | cons x rest ih =>
    rw [List.mapM_cons, List.forall₂_cons_left_iff]
    simp only [← ih]
    cases hx : f x with
    | error e => simp [bind, Except.bind]
    | ok y => cases hrest : rest.mapM f <;> simp [bind, Except.bind, pure, Except.pure, eq_comm]

private theorem exists_forall₂_iff {α β γ : Type} {R : α → β → Prop} {S : β → γ → Prop} {l : List α} {l' : List γ} :
    (∃ m, List.Forall₂ R l m ∧ List.Forall₂ S m l') ↔ List.Forall₂ (fun x z => ∃ y, R x y ∧ S y z) l l' := by
  induction l generalizing l' with
  | nil => simp
  | cons x rest ih =>
    simp only [List.forall₂_cons_left_iff, ← ih]
    constructor
    · rintro ⟨m, ⟨y, ys, hy, hys, rfl⟩, h⟩
      obtain ⟨z, zs, hz, hzs, rfl⟩ := List.forall₂_cons_left_iff.1 h
      exact ⟨z, zs, ⟨y, hy, hz⟩, ⟨ys, hys, hzs⟩, rfl⟩
    · rintro ⟨z, zs, ⟨y, hy, hz⟩, ⟨ys, hys, hzs⟩, rfl⟩
      exact ⟨y :: ys, ⟨y, ys, hy, hys, rfl⟩, .cons hz hzs⟩

private theorem bar_not_mem_canonical_iff {call : RuleCall} (h : call.Separable ∧ ∀ p ∈ call.params, p.IsReadBack) :
    '|' ∉ call.canonical.toList ↔ call.Faithful := by
  rw [faithful_iff, bar_mem_canonical_iff h.1.name, and_iff_right h]
  simp

/-- Canonical forms without bars are the tokens of the rule string that is made of them. -/
private theorem tokens_canonical {calls : List RuleCall} (hne : calls ≠ [])
    (h : ∀ call ∈ calls, '|' ∉ call.canonical.toList) :
    tokens ("|".intercalate (calls.map canonical)) = calls.map canonical := by
  have hbar : "|".toList = ['|'] := rfl
  exact Text.split_intercalate hbar (by simpa using hne) (by simpa using h)

/-- A list of calls is read back from its rule string exactly when each of the calls is faithful. -/
theorem readBack_iff_faithful {calls : List RuleCall} (hne : calls ≠ []) :
    (∃ back, (tokens ("|".intercalate (calls.map canonical))).mapM parse = .ok back ∧
        List.Forall₂ (fun b c => b.same c) back calls) ↔
      ∀ call ∈ calls, call.Faithful := by
  have hcalls : (∃ back, (calls.map canonical).mapM parse = .ok back ∧
      List.Forall₂ (fun b c => b.same c) back calls) ↔
      ∀ call ∈ calls, call.Separable ∧ ∀ p ∈ call.params, p.IsReadBack := by
    simp only [mapM_eq_ok_iff, List.forall₂_map_left_iff, ← exists_parse_canonical_same_iff]
    rw [exists_forall₂_iff, List.forall₂_same]
  -- for calls that are read back one by one, bars are all that can go wrong
  have hnobar : (∀ call ∈ calls, call.Separable ∧ ∀ p ∈ call.params, p.IsReadBack) →
      ((∀ call ∈ calls, '|' ∉ call.canonical.toList) ↔ ∀ call ∈ calls, call.Faithful) :=
    fun h => forall₂_congr fun call hc => bar_not_mem_canonical_iff (h call hc)
  constructor
  · rintro ⟨back, hparse, hsame⟩
    -- as many calls are read as there are calls, so no canonical form holds a bar
    have hlength : (tokens ("|".intercalate (calls.map canonical))).length = (calls.map canonical).length := by
      rw [(mapM_eq_ok_iff.1 hparse).length_eq, hsame.length_eq, List.length_map]
    have hbar : "|".toList = ['|'] := rfl
    have hbars : ∀ call ∈ calls, '|' ∉ call.canonical.toList := by
      simpa using Text.not_mem_of_length_split hbar (by simpa using hne) hlength
    rw [tokens_canonical hne hbars] at hparse
    exact (hnobar (hcalls.1 ⟨back, hparse, hsame⟩)).1 hbars
  · intro h
    have hone : ∀ call ∈ calls, call.Separable ∧ ∀ p ∈ call.params, p.IsReadBack :=
      fun call hc => (faithful_iff.1 (h call hc)).1
    rw [tokens_canonical hne ((hnobar hone).2 h)]
    exact hcalls.2 hone

theorem readBack_two_calls :
    let calls : List RuleCall := [⟨"required", []⟩, ⟨"a", [.number (ofDecimal false ⟨3, 0⟩), .text "x"]⟩]
    calls ≠ [] ∧ ∃ back, (tokens ("|".intercalate (calls.map canonical))).mapM parse = .ok back ∧
      List.Forall₂ (fun b c => b.same c) back calls := by
  have hplain : (ofDecimal false ⟨3, 0⟩).IsPlain := by decide +kernel
  have htext : ¬ Numeral.NumericText "x".toList := by
    rw [← Numeral.isSome_ofLiteral?_iff]
    decide
  have hname (s : String) (h : s.toList ≠ [] ∧ s.toList.all isNameChar) : IsName s :=
    isName_iff.2 ⟨h.1, List.all_eq_true.1 h.2⟩
  have hrequired : (RuleCall.mk "required" []).Faithful :=
    ⟨hname _ (by decide), by simp, by simp, by simp⟩
  have ha : (RuleCall.mk "a" [.number (ofDecimal false ⟨3, 0⟩), .text "x"]).Faithful := by
    refine ⟨hname _ (by decide), by simp, ?_, by simpa using hplain⟩
    intro s hs
    obtain rfl : s = "x" := by simpa using hs
    exact ⟨by simp, htext⟩
  exact ⟨by simp, (readBack_iff_faithful (by simp)).2 (by simpa using ⟨hrequired, ha⟩)⟩

end RuleCall

end FieldRules
