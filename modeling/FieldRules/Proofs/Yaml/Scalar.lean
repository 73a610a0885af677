import FieldRules.Proofs.Text.Bytes
import FieldRules.Proofs.Yaml.Lexer
import FieldRules.Proofs.Yaml.Literal
import FieldRules.Proofs.Yaml.Plain
import FieldRules.Proofs.Yaml.Quoted

/-!
# Scalars as tokens

A text in any style is read as one token, as a key up to the colon behind it and as a value with the end of its line.
The key facts: `suits_styleOf` (what is known of a text that is written in a style), `token?_key` and
`leadsTo_scalarLine`.
-/

namespace FieldRules.Yaml

/-! ### Styles -/

/-- What is known of a text that is written in a style. -/
def Suits (isKey : Bool) (s : String) : ScalarStyle → Prop
  | .plain => Plain.ofText s = .text ∧ allowsPlain s.toList = true
  | .single => allowsSingle s.toList = true ∧ '\n' ∉ s.toList
  | .double => True
  | .literal => isKey = false ∧ allowsLiteral s.toList = true ∧ '\n' ∈ s.toList

theorem suits_styleOf (isKey : Bool) (s : String) : Suits isKey s (styleOf isKey s) := by
  have hquoted (hnewline : '\n' ∉ s.toList) : Suits isKey s
      (if allowsSingle s.toList && !(isKey && s.toList.any isBreak) then .single else .double) := by
    split
    · rename_i hallows
      exact ⟨(Bool.and_eq_true_iff.1 hallows).1, hnewline⟩
    · trivial
  unfold styleOf
  dsimp only
  split
  · rename_i hnewline
    split
    · rename_i hallows
      obtain ⟨hallows, hkey⟩ := Bool.and_eq_true_iff.1 hallows
      exact ⟨by simpa using hkey, hallows, by simpa using hnewline⟩
    · trivial
  · rename_i hnewline
    replace hnewline : '\n' ∉ s.toList := by simpa using hnewline
    split
    · rename_i htext
      split
      · exact hquoted hnewline
      · split
        · rename_i hallows
          exact ⟨htext, hallows⟩
        · exact hquoted hnewline
    · exact hquoted hnewline

theorem styleOf_plain {isKey : Bool} {s : String} (h : styleOf isKey s = .plain) :
    Plain.ofText s = .text ∧ allowsPlain s.toList = true := by
  have hsuits := suits_styleOf isKey s
  rwa [h] at hsuits

private theorem styleOf_single {isKey : Bool} {s : String} (h : styleOf isKey s = .single) :
    allowsSingle s.toList = true ∧ '\n' ∉ s.toList := by
  have hsuits := suits_styleOf isKey s
  rwa [h] at hsuits

private theorem styleOf_literal {isKey : Bool} {s : String} (h : styleOf isKey s = .literal) :
    isKey = false ∧ allowsLiteral s.toList = true ∧ '\n' ∈ s.toList := by
  have hsuits := suits_styleOf isKey s
  rwa [h] at hsuits

/-- The style of a text in one line is the same for keys. -/
private theorem styleOf_key {s : String} (h : ∀ d ∈ s.toList, isBreak d = false) :
    styleOf true s = styleOf false s := by
  have hany : s.toList.any isBreak = false := by simpa using h
  have hnewline : '\n' ∉ s.toList := fun hmem => absurd (h _ hmem) (by decide)
  simp [styleOf, hany, hnewline]

/-- How a plain text begins. -/
structure PlainStart (d : Char) (more : List Char) : Prop where
  printable : isPrintable d = true
  solid : blankAhead [d] = false
  sign : "#,[]\x7b\x7d&*!|>'\"%@`".toList.contains d = false
  lead : ("?:-".toList.contains d && blankAhead more) = false
  dashes : "---".toList.isPrefixOf (d :: more) = false
  dots : "...".toList.isPrefixOf (d :: more) = false

private theorem PlainStart.of_allowsPlain {d : Char} {more : List Char} (h : allowsPlain (d :: more) = true) :
    PlainStart d more := by
  simp only [allowsPlain, Bool.and_eq_true, Bool.not_eq_true', List.all_eq_true, List.any_eq_false, startsAsSign,
    Bool.or_eq_false_iff] at h
  obtain ⟨⟨⟨⟨⟨⟨hprintable, hlines⟩, hfirst⟩, -⟩, hdashes, hdots⟩, hsign, hlead⟩, -⟩ := h
  have hbreak : isBreak d = false := by simpa using hlines d List.mem_cons_self
  have hsolid := not_blankAhead_of_isPrintable (hprintable d List.mem_cons_self) hfirst hbreak []
  exact ⟨hprintable d List.mem_cons_self, hsolid, hsign, hlead, hdashes, hdots⟩

private theorem ne_nil_of_plain {isKey : Bool} {s : String} (h : styleOf isKey s = .plain) : s.toList ≠ [] := by
  intro hnil
  obtain rfl : s = "" := String.toList_eq_nil_iff.1 hnil
  cases (styleOf_plain h).1

/-! ### What is written -/

variable {cs : List Char} {s : String} {n : Nat}

theorem isPrintable_of_mem_spaces (n : Nat) : ∀ d ∈ spaces n, isPrintable d = true := by
  intro d hd
  rw [mem_spaces hd]
  decide

private theorem isPrintable_of_mem_singleBody (h : ∀ d ∈ cs, isPrintable d = true) (n : Nat) (atBreak : Bool) :
    ∀ d ∈ singleBody n atBreak cs, isPrintable d = true := by
  induction cs generalizing atBreak with
  | nil => exact fun d hd => absurd hd List.not_mem_nil
  | cons e rest ih =>
    obtain ⟨he, hrest⟩ := List.forall_mem_cons.1 h
    rw [singleBody]
    split
    · exact List.forall_mem_cons.2 ⟨he, ih hrest true⟩
    · refine List.forall_mem_append.2 ⟨List.forall_mem_append.2 ⟨?_, ?_⟩, ih hrest false⟩
      · split
        · exact isPrintable_of_mem_spaces n
        · exact fun d hd => absurd hd List.not_mem_nil
      · split
        · exact forall_mem_of_all (by decide)
        · simpa using he

private theorem isPrintable_of_mem_literalBody (h : ∀ d ∈ cs, isPrintable d = true) (n : Nat) (atBreak : Bool) :
    ∀ d ∈ literalBody n atBreak cs, isPrintable d = true := by
  induction cs generalizing atBreak with
  | nil => exact fun d hd => absurd hd List.not_mem_nil
  | cons e rest ih =>
    obtain ⟨he, hrest⟩ := List.forall_mem_cons.1 h
    rw [literalBody]
    split
    · exact List.forall_mem_cons.2 ⟨he, ih hrest true⟩
    · refine List.forall_mem_append.2 ⟨?_, List.forall_mem_cons.2 ⟨he, ih hrest false⟩⟩
      split
      · exact isPrintable_of_mem_spaces n
      · exact fun d hd => absurd hd List.not_mem_nil

private theorem isPrintable_of_mem_literalHints (cs : List Char) : ∀ d ∈ literalHints cs, isPrintable d = true := by
  rw [literalHints_eq]
  refine forall_mem_of_all ?_
  cases chompingOf cs <;> cases (indentHint cs).isSome <;> decide

/-- Whatever is written for a text can be seen. -/
theorem isPrintable_of_mem_scalar (isKey : Bool) (n : Nat) (s : String) :
    ∀ d ∈ scalar isKey n s, isPrintable d = true := by
  unfold scalar
  dsimp only
  split
  · rename_i hstyle
    have h := (styleOf_plain hstyle).2
    simp only [allowsPlain, Bool.and_eq_true, List.all_eq_true] at h
    exact h.1.1.1.1.1.1
  · rename_i hstyle
    have hcs := (Single.of_allowsSingle (styleOf_single hstyle).1).printable
    exact List.forall_mem_append.2
      ⟨List.forall_mem_cons.2 ⟨by decide, isPrintable_of_mem_singleBody hcs n false⟩, forall_mem_of_all (by decide)⟩
  · refine List.forall_mem_append.2 ⟨List.forall_mem_cons.2 ⟨by decide, fun e he => ?_⟩, forall_mem_of_all (by decide)⟩
    obtain ⟨d, -, he⟩ := List.mem_flatMap.1 he
    exact (escapeDouble_written d).2 e he
  · rename_i hstyle
    have h := (styleOf_literal hstyle).2.1
    simp only [allowsLiteral, Bool.and_eq_true, List.all_eq_true] at h
    exact List.forall_mem_cons.2 ⟨by decide, List.forall_mem_append.2 ⟨isPrintable_of_mem_literalHints _,
      List.forall_mem_cons.2 ⟨by decide, isPrintable_of_mem_literalBody h.1.1 n true⟩⟩⟩

theorem isPrintable_of_mem_scalarLine (n : Nat) (s : String) : ∀ d ∈ scalarLine n s, isPrintable d = true := by
  unfold scalarLine
  dsimp only
  split
  · exact isPrintable_of_mem_scalar false n s
  · exact List.forall_mem_append.2 ⟨isPrintable_of_mem_scalar false n s, forall_mem_of_all (by decide)⟩

private theorem isBreak_of_mem_singleUnit {d : Char} (h : isBreak d = false) :
    ∀ e ∈ singleUnit d, isBreak e = false := by
  unfold singleUnit
  split
  · exact forall_mem_of_all (by decide)
  · exact List.forall_mem_singleton.2 h

/-- A key that fits before a colon is written in one line. -/
theorem isSimpleKey_written (h : isSimpleKey s = true) (n : Nat) :
    (∀ d ∈ scalar true n s, isBreak d = false) ∧ (scalar true n s).length ≤ 1024 := by
  obtain ⟨hsize, hlines⟩ := Bool.and_eq_true_iff.1 h
  replace hsize : s.toList.length ≤ 128 := by
    have hbytes : s.toList.length ≤ (s.toList.flatMap String.utf8EncodeChar).length :=
      length_le_flatMap fun d _ => String.utf8EncodeChar_ne_nil
    rw [← Text.bytes_eq_flatMap] at hbytes
    exact Nat.le_trans hbytes (of_decide_eq_true hsize)
  replace hlines : ∀ d ∈ s.toList, isBreak d = false := by simpa using hlines
  unfold scalar
  dsimp only
  split
  · exact ⟨hlines, by omega⟩
  · have hbody := singleBody_append hlines n []
    rw [List.append_nil, singleBody, List.append_nil] at hbody
    have hunit (d : Char) : (singleUnit d).length ≤ 2 := by
      unfold singleUnit
      split <;> simp
    have hlength := length_flatMap_le hunit s.toList
    rw [hbody]
    refine ⟨List.forall_mem_append.2
      ⟨List.forall_mem_cons.2 ⟨by decide, fun e he => ?_⟩, forall_mem_of_all (by decide)⟩, ?_⟩
    · obtain ⟨d, hd, he⟩ := List.mem_flatMap.1 he
      exact isBreak_of_mem_singleUnit (hlines d hd) e he
    · rw [List.length_append, List.length_cons, List.length_singleton]
      omega
  · have hlength := length_flatMap_le (fun d => (escapeDouble_written d).1) s.toList
    refine ⟨List.forall_mem_append.2
      ⟨List.forall_mem_cons.2 ⟨by decide, fun e he => ?_⟩, forall_mem_of_all (by decide)⟩, ?_⟩
    · obtain ⟨d, -, he⟩ := List.mem_flatMap.1 he
      exact isBreak_of_mem_escapeDouble d e he
    · rw [List.length_append, List.length_cons, List.length_singleton]
      omega
  · rename_i hstyle
    exact absurd (styleOf_literal hstyle).1 (by decide)

/-! ### Lines of scalars -/

/-- The token that a written text is read as. -/
def textToken (s : String) : Token := .scalar (styleOf false s = .plain) s

theorem scalar_ne_nil (isKey : Bool) (n : Nat) (s : String) : scalar isKey n s ≠ [] := by
  cases hstyle : styleOf isKey s with
  | plain => simpa [scalar, hstyle] using ne_nil_of_plain hstyle
  | single => simp [scalar, hstyle]
  | double => simp [scalar, hstyle]
  | literal => simp [scalar, hstyle]

theorem scalarLine_ne_nil (n : Nat) (s : String) : scalarLine n s ≠ [] := by
  unfold scalarLine
  dsimp only
  split
  · exact scalar_ne_nil false n s
  · simp

private theorem scalarLine_of_ne (h : styleOf false s ≠ .literal) (n : Nat) :
    scalarLine n s = scalar false n s ++ ['\n'] := by
  simp [scalarLine, h]

private theorem scalarLine_of_literal (h : styleOf false s = .literal) (n : Nat) :
    scalarLine n s =
      '|' :: (literalHints s.toList ++ '\n' :: literalBody n true (s.toList ++ literalEnding s.toList)) := by
  rw [← literalBody_append_literalEnding]
  unfold scalarLine literalEnding
  by_cases hend : endsIn isBreak s.toList = true <;> simp [h, hend, scalar]

namespace Lexer

variable {c : Cursor} {ts : List Token} {p : Option KeyPlace} {indent : Int} {outer : List Int}
  {allowed : Bool} {k n : Nat} {R rest cs tail : List Char} {s : String}

/-! ### Tokens by their first characters -/

private theorem token?_of_quote {quote : Char} (hquote : quote = '\'' ∨ quote = '"') (hrest : c.rest = quote :: rest) :
    (state c ts p indent outer allowed).token? = (state c ts p indent outer allowed).quotedScalar? quote := by
  obtain rfl | rfl := hquote <;> simp [token?, state, hrest, Cursor.atMarker]

private theorem token?_of_bar (hrest : c.rest = '|' :: rest) :
    (state c ts p indent outer allowed).token? = (state c ts p indent outer allowed).blockScalar? true := by
  simp [token?, state, hrest, Cursor.atMarker, inFlow]

theorem token?_of_colon (hrest : c.rest = ':' :: rest) (hblank : blankAhead rest = true) :
    (state c ts p indent outer allowed).token? = (state c ts p indent outer allowed).value? := by
  simp [token?, state, hrest, Cursor.atMarker, hblank]

theorem token?_of_question (hrest : c.rest = '?' :: rest) (hblank : blankAhead rest = true) :
    (state c ts p indent outer allowed).token? = (state c ts p indent outer allowed).key? := by
  simp [token?, state, hrest, Cursor.atMarker, hblank]

private theorem not_atMarker {sign : Char} (hne : cs ≠ []) (h : [sign, sign, sign].isPrefixOf cs = false)
    (hrest : c.rest = cs ++ tail) (htail : tail.head? ≠ some sign) : c.atMarker sign = false := by
  have htake : (cs ++ tail).take 3 ≠ [sign, sign, sign] := by
    rcases cs with _ | ⟨a, _ | ⟨b, _ | ⟨d, more⟩⟩⟩
    · exact absurd rfl hne
    · cases tail <;> simp_all
    · cases tail <;> simp_all
    · simp only [List.isPrefixOf, Bool.and_eq_false_iff] at h
      simp
      grind
  simp [Cursor.atMarker, hrest, htake]

private theorem token?_of_plain {d : Char} {more : List Char} (h : PlainStart d more)
    (hrest : c.rest = d :: more ++ tail) (hdash : tail.head? ≠ some '-') (hdot : tail.head? ≠ some '.') :
    (state c ts p indent outer allowed).token? = (state c ts p indent outer allowed).plainScalar? := by
  have hdashes : c.atMarker '-' = false := not_atMarker (List.cons_ne_nil d more) h.dashes hrest hdash
  have hdots : c.atMarker '.' = false := not_atMarker (List.cons_ne_nil d more) h.dots hrest hdot
  have hlead {e : Char} (he : "?:-".toList.contains e = true) : (d == e && blankAhead (more ++ tail)) = false := by
    by_cases hd : d = e
    · have hmore := h.lead
      rw [hd, he, Bool.true_and] at hmore
      rw [blankAhead_append hmore, Bool.and_false]
    · simp [hd]
  have hitem : (d == '-' && blankAhead (more ++ tail)) = false := hlead (by decide)
  have hkey : (d == '?' && blankAhead (more ++ tail)) = false := hlead (by decide)
  have hvalue : (d == ':' && blankAhead (more ++ tail)) = false := hlead (by decide)
  have hsign := h.sign
  simp at hsign
  have hplain : plainAhead false (d :: (more ++ tail)) = true := by
    simp only [plainAhead]
    by_cases hd : "?:".toList.contains d = true
    · have hmore := hlead (show "?:-".toList.contains d = true by simp at hd ⊢; tauto)
      rw [beq_self_eq_true, Bool.true_and] at hmore
      rw [if_pos hd, hmore]
      rfl
    · rw [if_neg hd]
      by_cases hminus : (d == '-') = true
      · rw [hminus, Bool.true_and] at hitem
        rw [if_pos hminus]
        cases hmore : more ++ tail with
        | nil => rfl
        | cons e rest =>
          rw [hmore, blankAhead, Bool.or_eq_false_iff] at hitem
          simp [hitem.1]
      · rw [if_neg hminus, h.solid]
        simp [hsign]
  have hcursor : (state c ts p indent outer allowed).cursor = c := rfl
  have hinFlow : (state c ts p indent outer allowed).inFlow = false := rfl
  rw [token?]
  simp only [hcursor, hdashes, hdots, hrest, List.cons_append, hinFlow, Bool.false_or, hitem, hkey, hvalue, hplain]
  simp [hsign]

theorem solid_of_allowsPlain (hne : cs ≠ []) (h : allowsPlain cs = true) (rest : List Char) : Solid (cs ++ rest) := by
  obtain ⟨d, more, rfl⟩ := List.exists_cons_of_ne_nil hne
  have hstart := PlainStart.of_allowsPlain h
  have hsolid := hstart.solid
  simp only [blankAhead, breakAhead, Bool.or_eq_false_iff] at hsolid
  refine .cons ⟨hsolid.1, hsolid.2.2, ?_, ?_⟩ _
  · rintro rfl
    exact absurd hstart.sign (by decide)
  · rintro rfl
    exact absurd hstart.printable (by decide)

/-- A written text begins with a character that is not passed over. -/
theorem solid_scalar (isKey : Bool) (n : Nat) (s : String) (rest : List Char) : Solid (scalar isKey n s ++ rest) := by
  cases hstyle : styleOf isKey s with
  | plain =>
    have hscalar : scalar isKey n s = s.toList := by simp [scalar, hstyle]
    rw [hscalar]
    exact solid_of_allowsPlain (ne_nil_of_plain hstyle) (styleOf_plain hstyle).2 rest
  | single =>
    simp only [scalar, hstyle, List.cons_append]
    exact .cons (by decide) _
  | double =>
    simp only [scalar, hstyle, List.cons_append]
    exact .cons (by decide) _
  | literal =>
    simp only [scalar, hstyle, List.cons_append]
    exact .cons (by decide) _

theorem solid_scalarLine (n : Nat) (s : String) (rest : List Char) : Solid (scalarLine n s ++ rest) := by
  unfold scalarLine
  dsimp only
  split
  · exact solid_scalar false n s rest
  · rw [List.append_assoc]
    exact solid_scalar false n s _

/-! ### Scalars by their styles -/

/-- The place of a key that may begin here. -/
def notedPlace (c : Cursor) (ts : List Token) (indent : Int) (allowed : Bool) : Option KeyPlace :=
  if allowed then some ⟨ts.length, c.index, c.line, c.column, indent == (c.column : Int)⟩ else none

theorem noteKeyPlace?_state : (state c ts none indent outer allowed).noteKeyPlace? =
    some (state c ts (notedPlace c ts indent allowed) indent outer allowed) := by
  cases allowed <;> simp [noteKeyPlace?, dropKeyPlace?, state, notedPlace, inFlow]

/-- Nearby on the same line the place is kept. -/
theorem freshen?_notedPlace {c' : Cursor} (hline : c'.line = c.line) (hindex : c'.index ≤ c.index + 1024) :
    freshen? c' (notedPlace c ts indent allowed) = some (notedPlace c ts indent allowed) := by
  cases allowed <;> simp [freshen?, notedPlace, isStale, hline, Nat.not_lt.2 hindex]

/-- A text in quotes is read up to the closing quote. -/
private theorem token?_quoted {isKey : Bool} (hstyle : styleOf isKey s = .single ∨ styleOf isKey s = .double)
    (hn : 0 < n) (hrest : c.rest = scalar isKey n s ++ tail) (htail : tail.head? ≠ some '\'') :
    (state c ts none indent outer allowed).token? = some (state (c.after (scalar isKey n s)) (ts ++ [.scalar false s])
      (notedPlace c ts indent allowed) indent outer false) := by
  have hread {quote : Char} {c' : Cursor} (h : quoted? quote (c.after [quote]) = some (s, c'))
      (hquote : isBreak quote = false) : (state c ts none indent outer allowed).quotedScalar? quote =
      some (state c' (ts ++ [.scalar false s]) (notedPlace c ts indent allowed) indent outer false) := by
    have hcursor : (state c ts (notedPlace c ts indent allowed) indent outer allowed).cursor.skip = c.after [quote] :=
      Cursor.skip_eq_after hquote c
    rw [quotedScalar?, noteKeyPlace?_state]
    simp only [Option.bind_eq_bind, Option.bind_some, hcursor, h]
    simp [state, push]
  have hcolumn {quote : Char} (hquote : isBreak quote = false) : 0 < (c.after [quote]).column := by
    rw [Cursor.column_after_of_not_isBreak (by simpa using hquote)]
    exact Nat.succ_pos _
  obtain hstyle | hstyle := hstyle
  · have hscalar : scalar isKey n s = '\'' :: (singleBody n false s.toList ++ ['\'']) := by simp [scalar, hstyle]
    obtain ⟨hallows, hnewline⟩ := styleOf_single hstyle
    rw [hscalar, List.cons_append] at hrest
    rw [token?_of_quote (.inl rfl) hrest, hscalar, Cursor.after_cons]
    rw [← List.singleton_append, List.append_assoc] at hrest
    have hquoted := quoted?_single hn hallows hnewline (hcolumn (by decide)) (Cursor.rest_after hrest) htail
    rw [String.ofList_toList] at hquoted
    exact hread hquoted (by decide)
  · have hscalar : scalar isKey n s = '"' :: (s.toList.flatMap escapeDouble ++ ['"']) := by simp [scalar, hstyle]
    rw [hscalar, List.cons_append] at hrest
    rw [token?_of_quote (.inr rfl) hrest, hscalar, Cursor.after_cons]
    rw [← List.singleton_append, List.append_assoc] at hrest
    have hquoted := quoted?_double (hcolumn (by decide)) (Cursor.rest_after hrest)
    rw [String.ofList_toList] at hquoted
    exact hread hquoted (by decide)

/-- A plain text is read up to the colon behind it, or over the end of its line. -/
private theorem token?_plain {extra : List Char} {broken : Bool} (hne : s.toList ≠ []) (h : allowsPlain s.toList = true)
    (hend : EndsPlain (indent + 1) tail extra broken) (hcolumn : indent ≤ c.column) (hrest : c.rest = s.toList ++ tail) :
    (state c ts none indent outer allowed).token? = some (state (c.after (s.toList ++ extra)) (ts ++ [.scalar true s])
      (notedPlace c ts indent allowed) indent outer broken) := by
  have htail {e : Char} (hcolon : e ≠ ':') (hline : e ≠ '\n') : tail.head? ≠ some e := by
    cases hend <;> simp [hcolon.symm, hline.symm]
  obtain ⟨d, more, hs⟩ := List.exists_cons_of_ne_nil hne
  have hstart : PlainStart d more := .of_allowsPlain (hs ▸ h)
  have hsharp : s.toList.head? ≠ some '#' := by
    rintro hd
    obtain rfl : d = '#' := by simpa [hs] using hd
    exact absurd hstart.sign (by decide)
  have hdashes : c.atMarker '-' = false :=
    not_atMarker hne (hs ▸ hstart.dashes) hrest (htail (by decide) (by decide))
  have hdots : c.atMarker '.' = false := not_atMarker hne (hs ▸ hstart.dots) hrest (htail (by decide) (by decide))
  have hedge : c.atDocumentEdge = false := by
    rw [Cursor.atDocumentEdge, hdashes, hdots]
    rfl
  have hread := plain?_read (.of_allowsPlain hne h) hsharp hend hedge (by omega) hrest
  rw [String.ofList_toList] at hread
  have hcursor : (state c ts (notedPlace c ts indent allowed) indent outer allowed).cursor = c := rfl
  have hindent : (state c ts (notedPlace c ts indent allowed) indent outer allowed).indent = indent := rfl
  have hinFlow : (state c ts (notedPlace c ts indent allowed) indent outer allowed).inFlow = false := rfl
  rw [token?_of_plain hstart (hs ▸ hrest) (htail (by decide) (by decide)) (htail (by decide) (by decide)),
    plainScalar?, noteKeyPlace?_state]
  simp only [Option.bind_eq_bind, Option.bind_some, hcursor, hindent, hinFlow, hread]
  simp [state, push]

/-! ### Keys and values -/

private theorem textToken_of_simple (h : isSimpleKey s = true) : textToken s = .scalar (styleOf true s = .plain) s := by
  have hlines : ∀ d ∈ s.toList, isBreak d = false := by
    simpa using (Bool.and_eq_true_iff.1 h).2
  rw [textToken, styleOf_key hlines]

private theorem scalar_of_simple (h : isSimpleKey s = true) (n : Nat) : scalar true n s = scalar true (n + 1) s := by
  have hlines : ∀ d ∈ s.toList, isBreak d = false := by
    simpa using (Bool.and_eq_true_iff.1 h).2
  have hbody (m : Nat) := singleBody_append hlines m []
  simp only [List.append_nil, singleBody] at hbody
  cases hstyle : styleOf true s with
  | plain | double => simp only [scalar, hstyle]
  | single => simp only [scalar, hstyle, hbody]
  | literal => exact absurd (styleOf_literal hstyle).1 (by decide)

/-- A key before a colon is read as its text. -/
theorem token?_key (h : isSimpleKey s = true) (hcolumn : indent ≤ c.column) (hblank : blankAhead tail = true)
    (hrest : c.rest = scalar true n s ++ ':' :: tail) :
    (state c ts none indent outer allowed).token? = some (state (c.after (scalar true n s)) (ts ++ [textToken s])
      (notedPlace c ts indent allowed) indent outer false) := by
  rw [scalar_of_simple h n] at hrest ⊢
  rw [textToken_of_simple h]
  cases hstyle : styleOf true s with
  | plain =>
    have hscalar : scalar true (n + 1) s = s.toList := by simp [scalar, hstyle]
    rw [hscalar] at hrest ⊢
    rw [token?_plain (ne_nil_of_plain hstyle) (styleOf_plain hstyle).2 (.colon hblank) hcolumn hrest]
    simp
  | single => exact token?_quoted (.inl hstyle) (Nat.succ_pos n) hrest (by simp)
  | double => exact token?_quoted (.inr hstyle) (Nat.succ_pos n) hrest (by simp)
  | literal => exact absurd (styleOf_literal hstyle).1 (by decide)

theorem passed_notedPlace {line : Nat} (hindent : indent < c.column) (hline : c.line < line) :
    Passed (notedPlace c ts indent allowed) line := by
  intro q hq
  cases allowed with
  | false => cases hq
  | true =>
    obtain rfl := Option.some.inj hq
    exact ⟨hline, beq_eq_false_iff_ne.2 (by omega)⟩

/-- A plain text that is a value is read over the end of its line. -/
theorem leadsTo_plain (hne : s.toList ≠ []) (h : allowsPlain s.toList = true) (hk : (k : Int) ≤ indent)
    (hindent : indent < c.column) (hR : Solid R) (hrest : c.rest = s.toList ++ '\n' :: (spaces k ++ R)) :
    LeadsTo (state c ts none indent outer allowed) k R indent (ts ++ [.scalar true s]) indent outer := by
  rw [← List.cons_append, ← List.append_assoc] at hrest
  refine ⟨_, token?_plain hne h (.line (Int.lt_add_one_of_le hk) fun d hd => ⟨(hR d hd).1, (hR d hd).2.1⟩)
    (Int.le_of_lt hindent) (by rw [hrest]; simp), ?_, ?_⟩
  · show (c.after (s.toList ++ '\n' :: spaces k)).rest.length < c.rest.length
    rw [Cursor.rest_after hrest, hrest]
    simp only [List.length_append, List.length_cons]
    omega
  · have hcolumn : (c.after (s.toList ++ '\n' :: spaces k)).column = k := by
      rw [Cursor.column_after_append (by decide) isBreak_of_mem_spaces, length_spaces]
    exact awaits_spaces (n := 0) (Cursor.rest_after hrest) hcolumn hR (Int.le_refl _)
      (passed_notedPlace hindent (Cursor.line_lt_after (b := '\n') (by decide) (by simp) c))

private theorem column_after_literal (h : endsIn isBreak cs = true) (c : Cursor) (lead : List Char) (n k : Nat) :
    (c.after (lead ++ (literalBody n true cs ++ spaces k))).column = k := by
  have hne : cs ≠ [] := by
    rintro rfl
    cases h
  obtain ⟨front, b, rfl⟩ := (List.eq_nil_or_concat' cs).resolve_left hne
  have hb : isBreak b = true := by simpa [endsIn] using h
  have hsplit : lead ++ (literalBody n true (front ++ [b]) ++ spaces k) =
      (lead ++ literalBody n true front) ++ b :: spaces k := by
    simp [literalBody_concat hb]
  rw [hsplit, Cursor.column_after_append hb isBreak_of_mem_spaces, length_spaces]

/-- A text over several lines is read up to the next token. -/
private theorem leadsTo_literal (hstyle : styleOf false s = .literal) (hk : k ≤ n) (hR : Solid R)
    (hrest : c.rest = scalarLine (n + 2) s ++ (spaces k ++ R)) :
    LeadsTo (state c ts none n outer allowed) k R n (ts ++ [.scalar false s]) n outer := by
  obtain ⟨-, hallows, hnewline⟩ := styleOf_literal hstyle
  have hne : s.toList ≠ [] := List.ne_nil_of_mem hnewline
  have hskip : c.skip = c.after ['|'] := Cursor.skip_eq_after (by decide) c
  rw [scalarLine_of_literal hstyle, List.cons_append] at hrest
  have hbar : (state c ts none n outer allowed).token? = (state c ts none n outer allowed).blockScalar? true :=
    token?_of_bar hrest
  have hbody : (c.after ['|']).rest = literalHints s.toList ++ '\n' ::
      (literalBody (n + 2) true (s.toList ++ literalEnding s.toList) ++ (spaces k ++ R)) := by
    rw [← List.singleton_append, List.append_assoc] at hrest
    rw [Cursor.rest_after hrest]
    simp
  have hread := block?_read hallows hne hbody hk fun d hd => by
    obtain ⟨hblank, hbreak, -⟩ := hR d hd
    simp only [isBlank, Bool.or_eq_false_iff, beq_eq_false_iff_ne] at hblank
    exact ⟨hbreak, hblank.2, by simpa [isSpace] using hblank.1⟩
  rw [String.ofList_toList] at hread
  rw [← List.cons_append, ← List.append_assoc, ← List.append_assoc] at hbody
  have hend := Cursor.rest_after hbody
  have hcolumn := column_after_literal (endsIn_literalEnding s.toList) (c.after ['|']) (literalHints s.toList ++ ['\n'])
    (n + 2) k
  rw [← List.append_assoc, List.append_assoc (literalHints s.toList), List.singleton_append] at hread hcolumn
  generalize (c.after ['|']).after _ = c' at hread hend hcolumn
  refine ⟨state c' (ts ++ [.scalar false s]) none n outer true, hbar.trans ?_, ?_,
    awaits_spaces (n := 0) hend hcolumn hR (Int.le_refl _) fun q hq => by cases hq⟩
  · have hdrop : (state c ts none n outer allowed).dropKeyPlace? = some (state c ts none n outer allowed) := rfl
    have hcursor : (state c ts none n outer allowed).cursor.skip = c.after ['|'] := hskip
    have hindent : (state c ts none n outer allowed).indent = n := rfl
    rw [blockScalar?, hdrop]
    simp only [Option.bind_eq_bind, Option.bind_some, hcursor, hindent, hread]
    simp [state, push]
  · show c'.rest.length < c.rest.length
    rw [hend, hrest]
    simp only [List.length_append, List.length_cons]
    omega

/-- A text that is a value is read up to the next token. -/
theorem leadsTo_scalarLine (hk : k ≤ n) (hcolumn : n < c.column) (hR : Solid R)
    (hrest : c.rest = scalarLine (n + 2) s ++ (spaces k ++ R)) :
    LeadsTo (state c ts none n outer allowed) k R n (ts ++ [textToken s]) n outer := by
  have hindent : (n : Int) < c.column := by omega
  have hquoted (hstyle : styleOf false s = .single ∨ styleOf false s = .double) :
      LeadsTo (state c ts none n outer allowed) k R n (ts ++ [.scalar false s]) n outer := by
    rw [scalarLine_of_ne (by obtain h | h := hstyle <;> rw [h] <;> decide), List.append_assoc,
      List.singleton_append] at hrest
    have hend := Cursor.rest_after hrest
    refine ⟨_, token?_quoted hstyle (Nat.succ_pos _) hrest (by simp), ?_,
      awaits_line hend hR (Int.le_refl _) (passed_notedPlace hindent (Nat.lt_succ_of_le (Cursor.line_le_after c _)))⟩
    show (c.after (scalar false (n + 2) s)).rest.length < c.rest.length
    have hpos : 0 < (scalar false (n + 2) s).length := by
      obtain h | h := hstyle <;> simp [scalar, h]
    rw [hend, hrest, List.length_append]
    omega
  rw [textToken]
  cases hstyle : styleOf false s with
  | plain =>
    have hscalar : scalar false (n + 2) s = s.toList := by simp [scalar, hstyle]
    rw [scalarLine_of_ne (by rw [hstyle]; decide), hscalar, List.append_assoc, List.singleton_append] at hrest
    exact leadsTo_plain (ne_nil_of_plain hstyle) (styleOf_plain hstyle).2 (Int.ofNat_le.2 hk) hindent hR hrest
  | single => exact hquoted (.inl hstyle)
  | double => exact hquoted (.inr hstyle)
  | literal => exact leadsTo_literal hstyle hk hR hrest

end Lexer

end FieldRules.Yaml
