import FieldRules.Proofs.Yaml.Cursor
import Mathlib.Data.List.Chain

/-!
# Texts over several lines

A text that is written over several lines reads back as it was, with the breaks at its end. The key facts:
`blockBreaks_read` (empty lines and the indentation behind them), `blockLines_read` (the lines), `BlockText.finish_eq`
(the hint says what becomes of the breaks at the end), and from them `block?_read`.
-/

namespace FieldRules.Yaml

variable {c : Cursor} {d : Char} {w cs rest tail : List Char} {n m fuel : Nat}

/-! ### What is written -/

private theorem literalBody_append (h : ∀ d ∈ w, isBreak d = false) (n : Nat) (rest : List Char) :
    literalBody n false (w ++ rest) = w ++ literalBody n false rest := by
  induction w with
  | nil => rfl
  | cons d w ih =>
    obtain ⟨hd, hw⟩ := List.forall_mem_cons.1 h
    rw [List.cons_append, literalBody, if_neg (by simp [hd]), ih hw]
    rfl

private theorem literalBody_of_isBreak (h : ∀ b ∈ w, isBreak b = true) (hne : w ≠ []) (n : Nat) (atBreak : Bool)
    (rest : List Char) : literalBody n atBreak (w ++ rest) = w ++ literalBody n true rest := by
  induction w generalizing atBreak with
  | nil => exact absurd rfl hne
  | cons b w ih =>
    obtain ⟨hb, hw⟩ := List.forall_mem_cons.1 h
    rw [List.cons_append, literalBody, if_pos hb]
    by_cases hnil : w = []
    · simp [hnil]
    · rw [ih hw hnil]
      rfl

private theorem literalBody_indented (h : isBreak d = false) (n : Nat) (rest : List Char) :
    literalBody n true (d :: rest) = spaces n ++ literalBody n false (d :: rest) := by
  simp [literalBody, h]

private theorem length_le_literalBody (n : Nat) (atBreak : Bool) (cs : List Char) :
    cs.length ≤ (literalBody n atBreak cs).length := by
  induction cs generalizing atBreak with
  | nil => exact Nat.le_refl _
  | cons d rest ih =>
    rw [literalBody]
    split
    · exact Nat.succ_le_succ (ih true)
    · have := ih false
      simp only [List.length_append, List.length_cons]
      omega

/-! ### Empty lines -/

private theorem takeWhile_spaces (m : Nat) (tail : List Char) :
    (spaces m ++ tail).takeWhile isSpace = spaces m ++ tail.takeWhile isSpace :=
  List.takeWhile_append_of_pos fun d hd => by rw [mem_spaces hd]; rfl

/-- How many spaces are taken for indentation: as many as are known to belong to it, or all. -/
def indentSpan (indent : Option Nat) (c : Cursor) : Nat :=
  match indent with
  | some n => min (c.rest.takeWhile isSpace).length (n - c.column)
  | none => (c.rest.takeWhile isSpace).length

private theorem blockBreaks_succ {indent : Option Nat} (hspan : indentSpan indent c = m)
    (htab : (c.skipMany m).rest.head? ≠ some '\t') (fuel widest : Nat) (breaks : List Char) :
    blockBreaks indent (fuel + 1) widest breaks c =
      if (c.skipMany m).atBreak then
        blockBreaks indent fuel (max widest (c.skipMany m).column) (breaks ++ (c.skipMany m).takeBreak.1)
          (c.skipMany m).takeBreak.2
      else some (max widest (c.skipMany m).column, breaks, c.skipMany m) := by
  subst hspan
  cases indent with
  | none =>
    simp only [indentSpan] at htab ⊢
    simp only [blockBreaks, htab, decide_false, Bool.and_false, Bool.false_eq_true, if_false]
    rfl
  | some k =>
    simp only [indentSpan] at htab ⊢
    simp only [blockBreaks, htab, decide_false, Bool.and_false, Bool.false_eq_true, if_false]
    rfl

private theorem indentSpan_eq {indent : Option Nat} (hcolumn : c.column = 0) (hrest : c.rest = spaces m ++ tail)
    (hindent : indent = some m ∨ (∀ k, indent = some k → m ≤ k) ∧ ∀ d ∈ tail.head?, isSpace d = false) :
    indentSpan indent c = m := by
  have hlength : (c.rest.takeWhile isSpace).length = m + (tail.takeWhile isSpace).length := by
    rw [hrest, takeWhile_spaces, List.length_append, length_spaces]
  obtain rfl | ⟨hle, hsolid⟩ := hindent
  · simp only [indentSpan, hlength, hcolumn]
    omega
  · have hnil : tail.takeWhile isSpace = [] := by
      cases tail with
      | nil => rfl
      | cons d more => exact List.takeWhile_cons_of_neg (by simp [hsolid d rfl])
    rw [hnil] at hlength
    cases indent with
    | none => exact hlength
    | some k =>
      have := hle k rfl
      simp only [indentSpan, hlength, hcolumn, List.length_nil]
      omega

/-- Empty lines are read with the indentation of the line behind them. A line may begin with a blank only where the
indentation is known. -/
theorem blockBreaks_read {indent : Option Nat} (hbreaks : ∀ b ∈ cs, isBreak b = true ∧ isPrintable b = true)
    (hcolumn : c.column = 0) (hrest : c.rest = cs ++ (spaces m ++ tail))
    (htail : ∀ d ∈ tail.head?, isBreak d = false ∧ d ≠ '\t')
    (hindent : indent = some m ∨ (∀ k, indent = some k → m ≤ k) ∧ ∀ d ∈ tail.head?, isSpace d = false)
    (hfuel : cs.length < fuel) (widest : Nat) (breaks : List Char) :
    blockBreaks indent fuel widest breaks c = some (max widest m, breaks ++ cs, c.after (cs ++ spaces m)) := by
  induction cs generalizing c fuel widest breaks with
  | nil =>
    obtain ⟨fuel, rfl⟩ := Nat.exists_eq_succ_of_ne_zero (Nat.ne_zero_of_lt hfuel)
    rw [List.nil_append] at hrest ⊢
    have hskip : c.skipMany m = c.after (spaces m) := by
      rw [Cursor.after_of_not_isBreak isBreak_of_mem_spaces, length_spaces]
    have hafter := Cursor.rest_after hrest
    have hcolumn' : (c.after (spaces m)).column = m := by
      rw [← hskip]
      simp [Cursor.skipMany, hcolumn]
    have htab : tail.head? ≠ some '\t' := fun h => (htail '\t' h).2 rfl
    have hbreak : (c.after (spaces m)).atBreak = false := by
      rw [Cursor.atBreak, hafter]
      cases tail with
      | nil => rfl
      | cons d more => exact (htail d rfl).1
    rw [blockBreaks_succ (indentSpan_eq hcolumn hrest hindent) (by rwa [hskip, hafter]), hskip, hbreak, hcolumn']
    simp
  | cons b cs ih =>
    obtain ⟨fuel, rfl⟩ := Nat.exists_eq_succ_of_ne_zero (Nat.ne_zero_of_lt hfuel)
    obtain ⟨⟨hb, hprintable⟩, hcs⟩ := List.forall_mem_cons.1 hbreaks
    have hspace : isSpace b = false := by
      obtain rfl | rfl | rfl := eq_of_isBreak hb hprintable <;> rfl
    have htab : b ≠ '\t' := by
      obtain rfl | rfl | rfl := eq_of_isBreak hb hprintable <;> decide
    rw [List.cons_append] at hrest
    have hspan : indentSpan indent c = 0 := indentSpan_eq hcolumn hrest
      (.inr ⟨fun _ _ => Nat.zero_le _, by simpa using hspace⟩)
    have hskip : c.skipMany 0 = c := rfl
    have hbreak : c.atBreak = true := by simp [Cursor.atBreak, hrest, hb]
    have hcolumn' : (c.after [b]).column = 0 := by
      simpa using Cursor.column_after_append hb (fun d hd => absurd hd List.not_mem_nil) c []
    rw [blockBreaks_succ hspan (by simpa [hskip, hrest] using htab), hskip, hbreak, if_pos rfl,
      Cursor.takeBreak_of_isBreak hb hprintable hrest, ih hcs hcolumn' (Cursor.rest_after hrest) ?_, hcolumn]
    · simp [Cursor.after]
    · simpa using hfuel

/-! ### Lines -/

/-- The text that was read of a block scalar, with all breaks. -/
def BlockText.whole (b : BlockText) : List Char := b.text ++ b.lastBreak ++ b.emptyLines

/-- What was read of a block scalar ends in a line with content and its break. -/
structure BlockText.Closed (b : BlockText) : Prop where
  text : ∃ front d, b.text = front ++ [d] ∧ isBreak d = false
  lastBreak : ∃ d, b.lastBreak = [d] ∧ isBreak d = true
  emptyLines : ∀ d ∈ b.emptyLines, isBreak d = true

private theorem blockLines_stop (h : c.column ≠ n) (fuel : Nat) (b : BlockText) :
    blockLines true n fuel b c = some (b, c) := by
  cases fuel with
  | zero => rfl
  | succ fuel => simp [blockLines, h]

/-- A line with content is read with the empty lines and the indentation behind it. -/
private theorem blockLines_line {e : Char} {more : List Char} {k : Nat} (hcolumn : c.column = n)
    (hw : ∀ d ∈ w, isPrintable d = true ∧ isBreak d = false)
    (hbreaks : ∀ d ∈ e :: more, isBreak d = true ∧ isPrintable d = true)
    (hrest : c.rest = w ++ (e :: more ++ (spaces k ++ tail))) (htail : ∀ d ∈ tail.head?, isBreak d = false ∧ d ≠ '\t')
    (hk : k = n ∨ k < n ∧ ∀ d ∈ tail.head?, isSpace d = false) (fuel : Nat) (b : BlockText) :
    blockLines true n (fuel + 1) b c =
      blockLines true n fuel ⟨b.whole ++ w, [e], more, w.head?.any isBlank⟩ (c.after (w ++ (e :: more ++ spaces k))) := by
  obtain ⟨⟨he, hprintable⟩, hmore⟩ := List.forall_mem_cons.1 hbreaks
  have hne : c.rest.isEmpty = false := by simp [hrest]
  have hline : c.takeLine = (w, c.after w) := by
    refine Cursor.takeWhile_eq_after hrest (fun d hd => ⟨?_, (hw d hd).2⟩) (by simp [breakAhead, he])
    obtain ⟨hprintable, hbreak⟩ := hw d hd
    have hnull : d ≠ '\x00' := by
      rintro rfl
      exact absurd hprintable (by decide)
    simp [breakAhead, hnull, hbreak]
  have hbreak := Cursor.takeBreak_of_isBreak he hprintable (Cursor.rest_after hrest)
  have hplace : ((c.after w).after [e]).rest = more ++ (spaces k ++ tail) := Cursor.rest_after (Cursor.rest_after hrest)
  have hcolumn' : ((c.after w).after [e]).column = 0 := by
    simpa using Cursor.column_after_append he (fun d hd => absurd hd List.not_mem_nil) (c.after w) []
  have hindent : some n = some k ∨ (∀ j, some n = some j → k ≤ j) ∧ ∀ d ∈ tail.head?, isSpace d = false := by
    refine hk.imp (fun h => by rw [h]) (And.imp_left fun hlt j hj => ?_)
    obtain rfl := Option.some.inj hj
    exact Nat.le_of_lt hlt
  have hfuel : more.length < ((c.after w).after [e]).rest.length + 1 := by
    rw [hplace, List.length_append]
    omega
  have hcursor : ((c.after w).after [e]).after (more ++ spaces k) = c.after (w ++ (e :: more ++ spaces k)) := by
    rw [← Cursor.after_append, ← Cursor.after_append]
    rfl
  rw [blockLines]
  simp only [hcolumn, ne_eq, not_true, decide_false, hne, Bool.or_self, Bool.false_eq_true, if_false, hline, hbreak,
    blockBreaks_read hmore hcolumn' hplace htail hindent hfuel, Option.bind_eq_bind, Option.bind_some,
    BlockText.addLine, Bool.not_true, Bool.false_and, BlockText.whole, List.nil_append, hcursor]

theorem blockLines_read (hprintable : ∀ d ∈ cs, isPrintable d = true)
    (hstart : ∃ d rest, cs = d :: rest ∧ isBreak d = false) (hend : endsIn isBreak cs = true) (hcolumn : c.column = n)
    (hrest : c.rest = literalBody n false cs ++ (spaces m ++ tail))
    (hm : m < n) (htail : ∀ d ∈ tail.head?, isBreak d = false ∧ d ≠ '\t' ∧ isSpace d = false)
    (hfuel : cs.length < fuel) (b : BlockText) :
    ∃ b', blockLines true n fuel b c = some (b', c.after (literalBody n false cs ++ spaces m)) ∧
      b'.whole = b.whole ++ cs ∧ b'.Closed := by
  induction cs using gaps_induct (p := isBreak) generalizing c fuel b with
  | word w hw =>
    -- a text that ends in a break is more than a word
    obtain ⟨d, rest, rfl, -⟩ := hstart
    obtain ⟨front, last, hlast⟩ := (List.eq_nil_or_concat' (d :: rest)).resolve_left (List.cons_ne_nil d rest)
    rw [hlast, endsIn, List.getLast?_concat, Option.any_some, hw last (by simp [hlast])] at hend
    cases hend
  | gap w g rest hw hne hg hsolid ih =>
    obtain ⟨fuel, rfl⟩ := Nat.exists_eq_succ_of_ne_zero (Nat.ne_zero_of_lt hfuel)
    obtain ⟨e, more, rfl⟩ := List.exists_cons_of_ne_nil hne
    have hstarts : w ≠ [] := by
      rintro rfl
      obtain ⟨d, rest', hd, hbreak⟩ := hstart
      obtain ⟨rfl, -⟩ := List.cons.inj hd
      rw [hg e List.mem_cons_self] at hbreak
      cases hbreak
    have hwords : ∀ d ∈ w, isPrintable d = true ∧ isBreak d = false := fun d hd =>
      ⟨hprintable d (List.mem_append_left _ hd), hw d hd⟩
    have hbreaks : ∀ d ∈ e :: more, isBreak d = true ∧ isPrintable d = true := fun d hd =>
      ⟨hg d hd, hprintable d (List.mem_append_right _ (List.mem_append_left _ hd))⟩
    have hcolumn' (k : Nat) : (c.after (w ++ (e :: more ++ spaces k))).column = k := by
      rw [Cursor.after_append]
      exact Cursor.column_after_breaks hg hne _ k
    rw [literalBody_append hw, literalBody_of_isBreak hg hne] at hrest ⊢
    rw [List.append_assoc, List.append_assoc] at hrest
    cases rest with
    | nil =>
      obtain ⟨front, last, rfl⟩ := (List.eq_nil_or_concat' w).resolve_left hstarts
      rw [blockLines_line hcolumn hwords hbreaks hrest (fun d hd => ⟨(htail d hd).1, (htail d hd).2.1⟩)
        (.inr ⟨hm, fun d hd => (htail d hd).2.2⟩), blockLines_stop (by rw [hcolumn']; omega)]
      refine ⟨⟨b.whole ++ (front ++ [last]), [e], more, (front ++ [last]).head?.any isBlank⟩, by simp [literalBody],
        by simp [BlockText.whole], ⟨b.whole ++ front, last, ?_, hw last (by simp)⟩, ⟨e, rfl, hg e List.mem_cons_self⟩,
        fun d hd => hg d (List.mem_cons_of_mem e hd)⟩
      exact (List.append_assoc ..).symm
    | cons d rest =>
      have hd : isBreak d = false := hsolid d rfl
      have hdprintable : isPrintable d = true := hprintable d (by simp)
      have htab : d ≠ '\t' := by
        rintro rfl
        exact absurd hdprintable (by decide)
      have hbody : literalBody n true (d :: rest) = spaces n ++ literalBody n false (d :: rest) :=
        literalBody_indented hd n rest
      have hhead :
          ∀ x ∈ (literalBody n false (d :: rest) ++ (spaces m ++ tail)).head?, isBreak x = false ∧ x ≠ '\t' := by
        simpa [literalBody, hd] using htab
      rw [hbody, List.append_assoc] at hrest
      rw [hbody, blockLines_line hcolumn hwords hbreaks hrest hhead (.inl rfl)]
      have hplace :
          (c.after (w ++ (e :: more ++ spaces n))).rest = literalBody n false (d :: rest) ++ (spaces m ++ tail) :=
        Cursor.rest_after (by rw [hrest]; simp)
      have hend' : endsIn isBreak (d :: rest) = true := by
        rwa [endsIn, ← List.append_assoc, List.getLast?_append, Option.or_of_isSome (by simp)] at hend
      have hfuel' : (d :: rest).length < fuel := by
        simp only [List.length_append, List.length_cons] at hfuel ⊢
        omega
      obtain ⟨b', hread, hwhole, hclosed⟩ :=
        ih (fun x hx => hprintable x (by simp [List.mem_cons.1 hx])) ⟨d, rest, rfl, hd⟩ hend'
        (hcolumn' n) hplace hfuel' ⟨b.whole ++ w, [e], more, w.head?.any isBlank⟩
      refine ⟨b', hread.trans ?_, ?_, hclosed⟩
      · rw [← Cursor.after_append]
        simp
      · rw [hwhole]
        simp [BlockText.whole]

/-! ### Hints -/

/-- What the hint says of the breaks at the end of a text: that there are none, that there is one, or that all of them
belong to it. -/
def chompingOf (cs : List Char) : Chomping :=
  match cs.reverse with
  | [] => .strip
  | [d] => if isBreak d then .keep else .strip
  | d :: e :: _ => if !isBreak d then .strip else if isBreak e then .keep else .clip

def Chomping.sign : Chomping → List Char
  | strip => ['-']
  | clip => []
  | keep => ['+']

/-- The hint on the indentation, which a text needs that begins with a space or a break. -/
def indentHint (cs : List Char) : Option Nat := if cs.head?.any fun d => isSpace d || isBreak d then some 2 else none

private theorem indentHint_cases (cs : List Char) : indentHint cs = none ∨ indentHint cs = some 2 := by
  unfold indentHint
  split
  · exact .inr rfl
  · exact .inl rfl

theorem literalHints_eq (cs : List Char) :
    literalHints cs = (if (indentHint cs).isSome then ['2'] else []) ++ (chompingOf cs).sign := by
  unfold literalHints indentHint chompingOf
  dsimp only
  congr 1
  · split <;> rfl
  · rcases cs.reverse with _ | ⟨d, _ | ⟨e, more⟩⟩
    · rfl
    · dsimp only
      cases isBreak d <;> rfl
    · dsimp only
      cases isBreak d <;> cases isBreak e <;> rfl

private theorem isBreak_of_mem_literalHints (cs : List Char) : ∀ d ∈ literalHints cs, isBreak d = false := by
  rw [literalHints_eq]
  refine forall_mem_of_all ?_
  cases chompingOf cs <;> cases (indentHint cs).isSome <;> decide

private theorem blockHints?_read (hrest : c.rest = literalHints cs ++ '\n' :: tail) :
    blockHints? c = some (chompingOf cs, indentHint cs, c.after (literalHints cs)) := by
  rw [Cursor.after_of_not_isBreak (isBreak_of_mem_literalHints cs)]
  rw [literalHints_eq] at hrest ⊢
  have hhint := indentHint_cases cs
  generalize chompingOf cs = chomping at hrest ⊢
  generalize indentHint cs = hint at hrest hhint ⊢
  obtain rfl | rfl := hhint
  · cases chomping <;> cases tail <;> rw [blockHints?, hrest] <;> rfl
  · cases chomping <;> rw [blockHints?, hrest] <;> rfl

private theorem chompingOf_concat_of_not_isBreak (h : isBreak d = false) (front : List Char) :
    chompingOf (front ++ [d]) = .strip := by
  rw [chompingOf, List.reverse_concat']
  cases front.reverse <;> simp [h]

private theorem chompingOf_concat_of_isBreak (h : isBreak d = true) (front : List Char) :
    chompingOf (front ++ [d]) = if front.getLast?.all isBreak then .keep else .clip := by
  rw [chompingOf, List.reverse_concat', ← List.head?_reverse]
  cases front.reverse <;> simp only [h] <;> rfl

/-- What a text over several lines needs behind it for its last line to end. -/
def literalEnding (cs : List Char) : List Char := if endsIn isBreak cs then [] else ['\n']

private theorem BlockText.Closed.finish_eq {b : BlockText} (h : b.Closed) (hwhole : b.whole = cs ++ literalEnding cs) :
    b.finish (chompingOf cs) = cs := by
  obtain ⟨text, lastBreak, emptyLines, blankStart⟩ := b
  obtain ⟨⟨front, d, rfl, hd⟩, ⟨e, rfl, he⟩, hempty⟩ := h
  dsimp only [BlockText.whole] at hwhole hempty
  rw [literalEnding] at hwhole
  rcases List.eq_nil_or_concat' emptyLines with rfl | ⟨more, x, rfl⟩
  · rw [List.append_nil] at hwhole
    split at hwhole
    · -- the one break at the end belongs to the text
      rw [List.append_nil] at hwhole
      subst hwhole
      rw [chompingOf_concat_of_isBreak he]
      simp [hd, finish]
    · -- the break at the end was added
      obtain ⟨rfl, -⟩ := List.append_inj' hwhole rfl
      rw [chompingOf_concat_of_not_isBreak hd]
      rfl
  · have hx : isBreak x = true := hempty x (by simp)
    have hbreak : (front ++ [d] ++ [e] ++ more).getLast?.all isBreak = true := by
      rcases List.eq_nil_or_concat' more with rfl | ⟨more, y, rfl⟩
      · simp [he]
      · simpa [← List.append_assoc] using hempty y (by simp)
    rw [← List.append_assoc] at hwhole
    split at hwhole
    · rw [List.append_nil] at hwhole
      subst hwhole
      rw [chompingOf_concat_of_isBreak hx, if_pos hbreak]
      simp [finish]
    · rename_i hends
      obtain ⟨rfl, -⟩ := List.append_inj' hwhole rfl
      obtain ⟨y, hy⟩ := Option.isSome_iff_exists.1 (show (front ++ [d] ++ [e] ++ more).getLast?.isSome by simp)
      rw [hy] at hbreak
      exact absurd (by rw [endsIn, hy]; exact hbreak) hends

/-- Of a text of breaks alone all are kept. -/
private theorem chompingOf_of_isBreak (hne : cs ≠ []) (h : ∀ d ∈ cs, isBreak d = true) : chompingOf cs = .keep := by
  obtain ⟨front, d, rfl⟩ := (List.eq_nil_or_concat' cs).resolve_left hne
  rw [chompingOf_concat_of_isBreak (h d (by simp)), if_pos]
  rcases List.eq_nil_or_concat' front with rfl | ⟨front, e, rfl⟩
  · rfl
  · simpa using h e (by simp)

/-! ### Whole texts -/

theorem literalBody_concat {b : Char} (hb : isBreak b = true) (n : Nat) (atBreak : Bool) (cs : List Char) :
    literalBody n atBreak (cs ++ [b]) = literalBody n atBreak cs ++ [b] := by
  induction cs generalizing atBreak with
  | nil => simp [literalBody, hb]
  | cons d rest ih =>
    rw [List.cons_append, literalBody, literalBody]
    split
    · rw [ih]
      rfl
    · rw [ih]
      simp

theorem literalBody_append_literalEnding (n : Nat) (cs : List Char) :
    literalBody n true cs ++ literalEnding cs = literalBody n true (cs ++ literalEnding cs) := by
  unfold literalEnding
  split
  · simp
  · rw [literalBody_concat (by decide)]

private theorem finishLine?_read (hrest : c.rest = '\n' :: tail) : c.finishLine? = some (c.after ['\n']) := by
  have hblanks : c.skipBlanks = c := by
    rw [Cursor.skipBlanks, hrest, List.takeWhile_cons_of_neg (by decide)]
    rfl
  have hbreak := Cursor.takeBreak_of_isBreak (by decide) (by decide) hrest
  simp [Cursor.finishLine?, hblanks, hrest, breakAhead, isBreak, Cursor.skipBreak, hbreak]

/-- Reading a block scalar comes down to its empty lines at the start and its lines. -/
private theorem block?_of_blockLines {outer widest : Nat} {c' c'' : Cursor} {breaks : List Char} {b : BlockText}
    (hrest : c.rest = literalHints cs ++ '\n' :: tail)
    (hbreaks : blockBreaks ((indentHint cs).map (outer + ·)) (tail.length + 1) 0 []
      (c.after (literalHints cs ++ ['\n'])) = some (widest, breaks, c'))
    (hindent : ((indentHint cs).map (outer + ·)).getD (max widest (outer + 1)) = outer + 2)
    (hlines : blockLines true (outer + 2) (c'.rest.length + 1) { emptyLines := breaks } c' = some (b, c'')) :
    block? true outer c = some (String.ofList (b.finish (chompingOf cs)), c'') := by
  have hhints := Cursor.rest_after hrest
  have hline : ((c.after (literalHints cs)).after ['\n']).rest = tail := Cursor.rest_after hhints
  rw [Cursor.after_append] at hbreaks
  have hknown : ((indentHint cs).map fun n => if (0 : Int) ≤ outer then (outer : Int).toNat + n else n) =
      (indentHint cs).map (outer + ·) := by simp
  have hmax (w : Nat) : max w (max 1 ((outer : Int) + 1).toNat) = max w (outer + 1) := by omega
  rw [block?]
  simp only [blockHints?_read hrest, finishLine?_read hhints, hknown, hline, hbreaks, hmax, hindent, hlines,
    Option.bind_eq_bind, Option.bind_some]
  rfl

theorem endsIn_literalEnding (cs : List Char) : endsIn isBreak (cs ++ literalEnding cs) = true := by
  unfold literalEnding
  split
  · rwa [List.append_nil]
  · simp [endsIn, isBreak]

private theorem indentHint_eq_none (h : indentHint (d :: rest) = none) : isSpace d = false ∧ isBreak d = false := by
  simpa [indentHint] using h

private theorem indentHint_of_isBreak (h : isBreak d = true) (rest : List Char) : indentHint (d :: rest) = some 2 := by
  simp [indentHint, h]

variable {outer k : Nat}

private theorem column_after_hints (c : Cursor) (cs : List Char) :
    (c.after (literalHints cs ++ ['\n'])).column = 0 := by
  simpa using Cursor.column_after_append (by decide) (fun d hd => absurd hd List.not_mem_nil) c (literalHints cs)

/-- A text of breaks alone. -/
private theorem block?_read_breaks (hne : cs ≠ []) (hcs : ∀ d ∈ cs, isBreak d = true ∧ isPrintable d = true)
    (hrest : c.rest = literalHints cs ++ '\n' :: (cs ++ (spaces k ++ tail))) (hk : k ≤ outer)
    (htail : ∀ d ∈ tail.head?, isBreak d = false ∧ d ≠ '\t' ∧ isSpace d = false) :
    block? true outer c = some (String.ofList cs, c.after (literalHints cs ++ ['\n'] ++ (cs ++ spaces k))) := by
  have hhint : indentHint cs = some 2 := by
    obtain ⟨d, rest, rfl⟩ := List.exists_cons_of_ne_nil hne
    exact indentHint_of_isBreak (hcs d List.mem_cons_self).1 rest
  have hplace : (c.after (literalHints cs ++ ['\n'])).rest = cs ++ (spaces k ++ tail) :=
    Cursor.rest_after (by rw [hrest]; simp)
  have hindent : ∀ j, (indentHint cs).map (outer + ·) = some j → k ≤ j := by
    rw [hhint]
    rintro j ⟨⟩
    exact Nat.le_add_right_of_le hk
  have hfuel : cs.length < (cs ++ (spaces k ++ tail)).length + 1 := by
    rw [List.length_append]
    omega
  have hbreaks := blockBreaks_read hcs (column_after_hints c cs) hplace (fun d hd => ⟨(htail d hd).1, (htail d hd).2.1⟩)
    (.inr ⟨hindent, fun d hd => (htail d hd).2.2⟩) hfuel 0 []
  have hcolumn : ((c.after (literalHints cs ++ ['\n'])).after (cs ++ spaces k)).column ≠ outer + 2 := by
    rw [Cursor.column_after_breaks (fun d hd => (hcs d hd).1) hne]
    omega
  rw [block?_of_blockLines hrest hbreaks (by rw [hhint]; rfl) (blockLines_stop hcolumn _ _),
    chompingOf_of_isBreak hne fun d hd => (hcs d hd).1, Cursor.after_append c (literalHints cs ++ ['\n'])]
  rfl

/-- A text that has a line with content. -/
private theorem block?_read_lines {lead body : List Char} (hlead : ∀ b ∈ lead, isBreak b = true ∧ isPrintable b = true)
    (hbody : ∀ x ∈ d :: body, isPrintable x = true) (hd : isBreak d = false)
    (htext : cs ++ literalEnding cs = lead ++ d :: body) (hne : cs ≠ [])
    (hrest : c.rest = literalHints cs ++ '\n' :: (lead ++ (spaces (outer + 2) ++
      (literalBody (outer + 2) false (d :: body) ++
      (spaces k ++ tail)))))
    (hk : k ≤ outer) (htail : ∀ d ∈ tail.head?, isBreak d = false ∧ d ≠ '\t' ∧ isSpace d = false) :
    block? true outer c = some (String.ofList cs,
      c.after (literalHints cs ++ ['\n'] ++ (lead ++ spaces (outer + 2)) ++
        (literalBody (outer + 2) false (d :: body) ++ spaces k))) := by
  have hplace : (c.after (literalHints cs ++ ['\n'])).rest = lead ++ (spaces (outer + 2) ++
      (literalBody (outer + 2) false (d :: body) ++ (spaces k ++ tail))) := Cursor.rest_after (by rw [hrest]; simp)
  have htab : d ≠ '\t' := by
    rintro rfl
    exact absurd (hbody '\t' List.mem_cons_self) (by decide)
  have hhead : ∀ x ∈ (literalBody (outer + 2) false (d :: body) ++ (spaces k ++ tail)).head?,
      isBreak x = false ∧ x ≠ '\t' := by
    simpa [literalBody, hd] using htab
  have hindent : (indentHint cs).map (outer + ·) = some (outer + 2) ∨
      (∀ j, (indentHint cs).map (outer + ·) = some j → outer + 2 ≤ j) ∧
        ∀ x ∈ (literalBody (outer + 2) false (d :: body) ++ (spaces k ++ tail)).head?, isSpace x = false := by
    obtain ⟨e, rest, rfl⟩ := List.exists_cons_of_ne_nil hne
    cases hhint : indentHint (e :: rest) with
    | some j =>
      obtain rfl : j = 2 := by simpa [hhint] using indentHint_cases (e :: rest)
      exact .inl rfl
    | none =>
      -- the text begins with a line that does not begin with a space
      obtain ⟨hspace, hbreak⟩ := indentHint_eq_none hhint
      have hlead' : lead = [] := by
        cases lead with
        | nil => rfl
        | cons b lead =>
          obtain ⟨rfl, -⟩ := List.cons.inj htext
          rw [(hlead _ List.mem_cons_self).1] at hbreak
          cases hbreak
      subst hlead'
      obtain ⟨rfl, -⟩ := List.cons.inj htext
      exact .inr ⟨fun j hj => (Option.some_ne_none j hj.symm).elim, by simpa [literalBody, hbreak] using hspace⟩
  have hlast : ((c.after (literalHints cs ++ ['\n'])).after (lead ++ spaces (outer + 2))).rest =
      literalBody (outer + 2) false (d :: body) ++ (spaces k ++ tail) := Cursor.rest_after (by rw [hplace]; simp)
  have hcolumn : ((c.after (literalHints cs ++ ['\n'])).after (lead ++ spaces (outer + 2))).column = outer + 2 := by
    have hbreaks : ∀ b ∈ '\n' :: lead, isBreak b = true :=
      List.forall_mem_cons.2 ⟨by decide, fun b hb => (hlead b hb).1⟩
    rw [Cursor.after_append c, ← Cursor.after_append, ← List.append_assoc]
    exact Cursor.column_after_breaks hbreaks (List.cons_ne_nil _ _) _ _
  have hfuel : lead.length < (lead ++ (spaces (outer + 2) ++ (literalBody (outer + 2) false (d :: body) ++
      (spaces k ++ tail)))).length + 1 := by
    rw [List.length_append]
    omega
  have hbreaks := blockBreaks_read hlead (column_after_hints c cs) hplace hhead hindent hfuel 0 []
  have hend : endsIn isBreak (d :: body) = true := by
    have hends := endsIn_literalEnding cs
    rwa [htext, endsIn, List.getLast?_append, Option.or_of_isSome (by simp)] at hends
  have hlength : (d :: body).length <
      ((c.after (literalHints cs ++ ['\n'])).after (lead ++ spaces (outer + 2))).rest.length + 1 := by
    have := length_le_literalBody (outer + 2) false (d :: body)
    rw [hlast, List.length_append]
    omega
  obtain ⟨b, hlines, hwhole, hclosed⟩ := blockLines_read hbody ⟨d, body, rfl, hd⟩ hend hcolumn hlast (by omega) htail
    hlength { emptyLines := lead }
  have hgetD : ((indentHint cs).map (outer + ·)).getD (max (max 0 (outer + 2)) (outer + 1)) = outer + 2 := by
    obtain hhint | hhint := indentHint_cases cs <;> simp [hhint]
  rw [block?_of_blockLines hrest hbreaks hgetD hlines, hclosed.finish_eq ?_]
  · simp only [← Cursor.after_append, List.append_assoc]
  · rw [hwhole, htext]
    rfl

theorem block?_read (h : allowsLiteral cs = true) (hne : cs ≠ [])
    (hrest : c.rest = literalHints cs ++ '\n' :: (literalBody (outer + 2) true (cs ++ literalEnding cs) ++
      (spaces k ++ tail)))
    (hk : k ≤ outer) (htail : ∀ d ∈ tail.head?, isBreak d = false ∧ d ≠ '\t' ∧ isSpace d = false) :
    block? true outer c = some (String.ofList cs,
      c.after (literalHints cs ++ ['\n'] ++ (literalBody (outer + 2) true (cs ++ literalEnding cs) ++ spaces k))) := by
  have hprintable : ∀ d ∈ cs ++ literalEnding cs, isPrintable d = true := by
    simp only [allowsLiteral, Bool.and_eq_true, List.all_eq_true] at h
    refine List.forall_mem_append.2 ⟨h.1.1, ?_⟩
    unfold literalEnding
    split <;> exact forall_mem_of_all (by decide)
  have hlead : ∀ b ∈ (cs ++ literalEnding cs).takeWhile isBreak, isBreak b = true ∧ isPrintable b = true := fun b hb =>
    ⟨List.mem_takeWhile_imp hb, hprintable b ((List.takeWhile_prefix _).subset hb)⟩
  have hsplit := List.takeWhile_append_dropWhile (p := isBreak) (l := cs ++ literalEnding cs)
  have hsolid := List.head?_dropWhile_not isBreak (cs ++ literalEnding cs)
  generalize (cs ++ literalEnding cs).takeWhile isBreak = lead at hsplit hlead
  generalize (cs ++ literalEnding cs).dropWhile isBreak = body at hsplit hsolid
  cases body with
  | nil =>
    have hending : literalEnding cs = [] := by
      obtain ⟨front, d, rfl⟩ := (List.eq_nil_or_concat' cs).resolve_left hne
      have hd : d ∈ lead := by
        rw [← List.append_nil lead, hsplit]
        simp
      exact if_pos (by simp [endsIn, (hlead d hd).1])
    rw [hending, List.append_nil, List.append_nil] at hsplit
    subst hsplit
    have hbody : literalBody (outer + 2) true lead = lead := by
      have happend := literalBody_of_isBreak (fun d hd => (hlead d hd).1) hne (outer + 2) true []
      rwa [List.append_nil, literalBody, List.append_nil] at happend
    rw [hending, List.append_nil, hbody] at hrest ⊢
    exact block?_read_breaks hne hlead hrest hk htail
  | cons d body =>
    have hd : isBreak d = false := by simpa using hsolid
    have hbody : literalBody (outer + 2) true (lead ++ d :: body) =
        lead ++ (spaces (outer + 2) ++ literalBody (outer + 2) false (d :: body)) := by
      rw [← literalBody_indented hd]
      by_cases hnil : lead = []
      · simp [hnil]
      · exact literalBody_of_isBreak (fun d hd => (hlead d hd).1) hnil _ true _
    have hcontent : ∀ x ∈ d :: body, isPrintable x = true := fun x hx =>
      hprintable x (hsplit ▸ List.mem_append_right lead hx)
    rw [← hsplit, hbody, List.append_assoc, List.append_assoc] at hrest
    rw [block?_read_lines hlead hcontent hd hsplit.symm hne hrest hk htail, ← hsplit, hbody]
    simp only [List.append_assoc]

end FieldRules.Yaml
