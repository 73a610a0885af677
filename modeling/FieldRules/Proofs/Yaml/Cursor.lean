import FieldRules.Yaml.Printer
import FieldRules.Yaml.Scalar
import Mathlib.Data.List.Basic
import Mathlib.Data.List.TakeWhile

/-!
# Going through YAML text

Where a cursor stands behind given characters (`Cursor.after`), and what is read between the words of a scalar. The key
facts: `Gap.read?_spaces` and `Gap.read?_breaks` (spaces are kept, breaks without the indentation behind them), and
`gaps_induct` (induction over a text by its words).
-/

namespace FieldRules.Yaml

variable {c : Cursor} {cs tail : List Char}

/-! ### Characters -/

/-- A check of all characters of a text, which can be run on a given text. -/
theorem forall_mem_of_all {p : Char → Bool} {b : Bool} (h : (cs.all fun d => p d == b) = true) : ∀ d ∈ cs, p d = b := by
  simpa using h

theorem eq_of_isBreak {b : Char} (h : isBreak b) (hprintable : isPrintable b) :
    b = '\n' ∨ b = '\u2028' ∨ b = '\u2029' := by
  simp only [isBreak, Bool.or_eq_true, beq_iff_eq] at h
  obtain (((rfl | rfl) | rfl) | rfl) | rfl := h
  · exact .inl rfl
  · exact absurd hprintable (by decide)
  · exact absurd hprintable (by decide)
  · exact .inr (.inl rfl)
  · exact .inr (.inr rfl)

/-- A printable character that neither is a space nor ends a line is neither a tab nor taken for the end of the text. -/
theorem not_blankAhead_of_isPrintable {d : Char} (hprintable : isPrintable d) (hspace : isSpace d = false)
    (hbreak : isBreak d = false) (rest : List Char) : blankAhead (d :: rest) = false := by
  have htab : d ≠ '\t' := by
    rintro rfl
    exact absurd hprintable (by decide)
  have hnull : d ≠ '\x00' := by
    rintro rfl
    exact absurd hprintable (by decide)
  have hspace' : d ≠ ' ' := by simpa [isSpace] using hspace
  simp [blankAhead, isBlank, breakAhead, htab, hnull, hspace', hbreak]

theorem blankAhead_append {cs : List Char} (h : blankAhead cs = false) (tail : List Char) :
    blankAhead (cs ++ tail) = false := by
  cases cs with
  | nil => cases h
  | cons d rest => exact h

namespace Cursor

/-! ### Passing over characters -/

/-- The place behind one character, which may end a line. -/
def pass (c : Cursor) (d : Char) : Cursor :=
  if isBreak d then ⟨c.rest.drop 1, c.index + 1, c.line + 1, 0⟩ else c.skip

/-- The place behind characters that stand here. -/
def after (c : Cursor) (cs : List Char) : Cursor := cs.foldl pass c

theorem after_cons (c : Cursor) (d : Char) (cs : List Char) : c.after (d :: cs) = (c.pass d).after cs := rfl

theorem after_append (c : Cursor) (cs cs' : List Char) : c.after (cs ++ cs') = (c.after cs).after cs' :=
  List.foldl_append

theorem rest_pass (c : Cursor) (d : Char) : (c.pass d).rest = c.rest.drop 1 := by
  unfold pass
  split <;> rfl

private theorem index_pass (c : Cursor) (d : Char) : (c.pass d).index = c.index + 1 := by
  unfold pass
  split <;> rfl

private theorem pass_of_isBreak {d : Char} (h : isBreak d) (c : Cursor) :
    c.pass d = ⟨c.rest.drop 1, c.index + 1, c.line + 1, 0⟩ := if_pos h

theorem pass_of_not_isBreak {d : Char} (h : isBreak d = false) (c : Cursor) : c.pass d = c.skip :=
  if_neg (by simp [h])

theorem rest_after (h : c.rest = cs ++ tail) : (c.after cs).rest = tail := by
  induction cs generalizing c with
  | nil => exact h
  | cons d cs ih => exact ih (by rw [rest_pass, h]; rfl)

theorem rest_skip {d : Char} (h : c.rest = d :: tail) : c.skip.rest = tail := by
  show c.rest.drop 1 = tail
  rw [h]
  rfl

theorem index_after (c : Cursor) (cs : List Char) : (c.after cs).index = c.index + cs.length := by
  induction cs generalizing c with
  | nil => rfl
  | cons d cs ih =>
    rw [after_cons, ih, index_pass, List.length_cons]
    omega

theorem line_le_after (c : Cursor) (cs : List Char) : c.line ≤ (c.after cs).line := by
  induction cs generalizing c with
  | nil => exact Nat.le_refl _
  | cons d cs ih =>
    refine Nat.le_trans ?_ (ih (c.pass d))
    unfold pass
    split
    · exact Nat.le_succ _
    · exact Nat.le_refl _

theorem line_lt_after {b : Char} (hb : isBreak b) (hmem : b ∈ cs) (c : Cursor) : c.line < (c.after cs).line := by
  obtain ⟨u, v, rfl⟩ := List.append_of_mem hmem
  rw [after_append, after_cons]
  have hbefore := line_le_after c u
  have hafter := line_le_after ((c.after u).pass b) v
  rw [pass_of_isBreak hb] at hafter ⊢
  exact Nat.lt_of_lt_of_le (Nat.lt_succ_of_le hbefore) hafter

/-- Within a line the place moves by the number of characters. -/
theorem after_of_not_isBreak (h : ∀ d ∈ cs, isBreak d = false) (c : Cursor) : c.after cs = c.skipMany cs.length := by
  induction cs generalizing c with
  | nil => rfl
  | cons d cs ih =>
    obtain ⟨hd, hcs⟩ := List.forall_mem_cons.1 h
    rw [after_cons, pass_of_not_isBreak hd, ih hcs]
    simp [skip, skipMany, Nat.add_assoc, Nat.add_comm 1]

theorem line_after_of_not_isBreak (h : ∀ d ∈ cs, isBreak d = false) (c : Cursor) : (c.after cs).line = c.line := by
  rw [after_of_not_isBreak h]
  rfl

theorem column_after_of_not_isBreak (h : ∀ d ∈ cs, isBreak d = false) (c : Cursor) :
    (c.after cs).column = c.column + cs.length := by
  rw [after_of_not_isBreak h]
  rfl

/-- Behind the last break the columns are counted from the start. -/
theorem column_after_append {b : Char} (hb : isBreak b) {cs' : List Char} (h : ∀ d ∈ cs', isBreak d = false)
    (c : Cursor) (cs : List Char) : (c.after (cs ++ b :: cs')).column = cs'.length := by
  rw [after_append, after_cons, column_after_of_not_isBreak h, pass_of_isBreak hb, Nat.zero_add]

/-! ### What the readers take -/

theorem skip_eq_after {d : Char} (h : isBreak d = false) (c : Cursor) : c.skip = c.after [d] :=
  (pass_of_not_isBreak h c).symm

theorem skipMany_eq_after (h : ∀ d ∈ cs, isBreak d = false) (c : Cursor) : c.skipMany cs.length = c.after cs :=
  (after_of_not_isBreak h c).symm

theorem takeBreak_of_isBreak {b : Char} (hb : isBreak b) (hprintable : isPrintable b) (h : c.rest = b :: tail) :
    c.takeBreak = ([b], c.after [b]) := by
  have hafter : c.after [b] = ⟨tail, c.index + 1, c.line + 1, 0⟩ := by
    rw [after_cons, pass_of_isBreak hb, h]
    rfl
  rw [hafter, takeBreak, h]
  obtain rfl | rfl | rfl := eq_of_isBreak hb hprintable <;> rfl

theorem takeWhile_eq_after {p : Char → Bool} (h : c.rest = cs ++ tail) (hcs : ∀ d ∈ cs, p d = true ∧ isBreak d = false)
    (htail : ∀ d ∈ tail.head?, p d = false) : c.takeWhile p = (cs, c.after cs) := by
  have htake : c.rest.takeWhile p = cs := by
    rw [h, List.takeWhile_append_of_pos fun d hd => (hcs d hd).1]
    cases tail with
    | nil => simp
    | cons d rest => simp [htail d rfl]
  rw [takeWhile, htake, skipMany_eq_after fun d hd => (hcs d hd).2]

/-! ### Document markers -/

theorem atDocumentEdge_of_column (h : 0 < c.column) : c.atDocumentEdge = false := by
  have hcolumn : (c.column == 0) = false := by
    rw [beq_eq_false_iff_ne]
    omega
  simp [atDocumentEdge, atMarker, hcolumn]

theorem atDocumentEdge_of_rest {d : Char} (h : c.rest = d :: tail) (hdash : d ≠ '-') (hdot : d ≠ '.') :
    c.atDocumentEdge = false := by
  simp [atDocumentEdge, atMarker, h, hdash, hdot]

end Cursor

/-! ### Spaces -/

theorem mem_spaces {n : Nat} {d : Char} (h : d ∈ spaces n) : d = ' ' := List.eq_of_mem_replicate h

theorem length_spaces (n : Nat) : (spaces n).length = n := List.length_replicate

theorem spaces_succ (n : Nat) : spaces (n + 1) = ' ' :: spaces n := rfl

theorem isBreak_of_mem_spaces {n : Nat} : ∀ d ∈ spaces n, isBreak d = false := by
  intro d hd
  rw [mem_spaces hd]
  decide

private theorem eq_spaces (h : ∀ d ∈ cs, isSpace d = true) : cs = spaces cs.length :=
  List.eq_replicate_of_mem fun d hd => by simpa [isSpace] using h d hd

theorem exists_eq_spaces (hne : cs ≠ []) (h : ∀ d ∈ cs, isSpace d = true) : ∃ n, cs = spaces (n + 1) := by
  obtain ⟨n, hn⟩ := Nat.exists_eq_succ_of_ne_zero (mt List.length_eq_zero_iff.1 hne)
  exact ⟨n, (eq_spaces h).trans (congrArg spaces hn)⟩

/-- Behind breaks and an indentation the column is that of the indentation. -/
theorem Cursor.column_after_breaks (h : ∀ b ∈ cs, isBreak b = true) (hne : cs ≠ []) (c : Cursor) (n : Nat) :
    (c.after (cs ++ spaces n)).column = n := by
  obtain ⟨more, b, rfl⟩ := (List.eq_nil_or_concat' cs).resolve_left hne
  rw [List.append_assoc, List.singleton_append, column_after_append (h b (by simp)) isBreak_of_mem_spaces, length_spaces]

/-! ### Gaps -/

namespace Gap

variable {g : Gap} {limit : Int} {fuel n : Nat}

private theorem readWith_stop (h : ∀ d ∈ c.rest.head?, isBlank d = false ∧ isBreak d = false) (limit : Int) (fuel : Nat)
    (g : Gap) : readWith limit fuel g c = some (g, c) := by
  cases fuel with
  | zero => rfl
  | succ fuel =>
    rw [readWith]
    cases hrest : c.rest with
    | nil => rfl
    | cons d rest =>
      obtain ⟨hblank, hbreak⟩ := h d (by simp [hrest])
      simp [hblank, hbreak]

/-- Spaces in a line are kept. -/
private theorem readWith_spaces (h : c.rest = spaces n ++ tail) (hg : g.broken = false) :
    readWith limit (fuel + n) g c =
      readWith limit fuel { g with blanks := g.blanks ++ spaces n } (c.after (spaces n)) := by
  induction n generalizing c g with
  | zero => simp [spaces, Cursor.after]
  | succ n ih =>
    have hskip : c.skip = c.pass ' ' := (Cursor.pass_of_not_isBreak (by decide) c).symm
    rw [spaces_succ, List.cons_append] at h
    rw [← Nat.add_assoc, readWith, h]
    simp only [isBlank, beq_self_eq_true, Bool.true_or, if_true, hg, Bool.false_and, Bool.false_eq_true, if_false]
    have hrest : (c.pass ' ').rest = spaces n ++ tail := by
      rw [Cursor.rest_pass, h]
      rfl
    rw [hskip, ih hrest rfl, List.append_assoc]
    rfl

/-- Spaces at the start of a line are dropped. -/
private theorem readWith_indentation (h : c.rest = spaces n ++ tail) (hg : g.broken = true) :
    readWith limit (fuel + n) g c = readWith limit fuel g (c.after (spaces n)) := by
  induction n generalizing c with
  | zero => rfl
  | succ n ih =>
    have hskip : c.skip = c.pass ' ' := (Cursor.pass_of_not_isBreak (by decide) c).symm
    rw [spaces_succ, List.cons_append] at h
    rw [← Nat.add_assoc, readWith, h]
    have htab : (' ' == '\t') = false := by decide
    simp only [isBlank, beq_self_eq_true, Bool.true_or, if_true, hg, htab, Bool.and_false, Bool.false_and,
      Bool.false_eq_true, if_false]
    rw [hskip, ih (by rw [Cursor.rest_pass, h]; rfl)]
    rfl

private theorem not_isBlank_of_isBreak {b : Char} (h : isBreak b) : isBlank b = false := by
  simp only [isBreak, Bool.or_eq_true, beq_iff_eq] at h
  obtain (((rfl | rfl) | rfl) | rfl) | rfl := h <;> rfl

/-- Further breaks are collected. -/
private theorem readWith_breaks (hcs : ∀ b ∈ cs, isBreak b = true ∧ isPrintable b = true) (h : c.rest = cs ++ tail)
    (hg : g.broken = true) :
    readWith limit (fuel + cs.length) g c =
      readWith limit fuel { g with moreBreaks := g.moreBreaks ++ cs } (c.after cs) := by
  induction cs generalizing c g with
  | nil => simp [Cursor.after]
  | cons b cs ih =>
    obtain ⟨⟨hb, hprintable⟩, hcs⟩ := List.forall_mem_cons.1 hcs
    rw [List.cons_append] at h
    rw [List.length_cons, ← Nat.add_assoc, readWith, h]
    simp only [not_isBlank_of_isBreak hb, hb, Cursor.takeBreak_of_isBreak hb hprintable h, hg, Bool.false_eq_true, if_false,
      if_true]
    rw [ih hcs (Cursor.rest_after (by rw [h]; rfl)) rfl, List.append_assoc]
    rfl

theorem read?_spaces (h : c.rest = spaces n ++ tail) (htail : ∀ d ∈ tail.head?, isBlank d = false ∧ isBreak d = false)
    (limit : Int) : read? limit {} c = some ({ blanks := spaces n }, c.after (spaces n)) := by
  have hrest := Cursor.rest_after h
  have hlength : c.rest.length = tail.length + n := by
    rw [h, List.length_append, length_spaces, Nat.add_comm]
  rw [read?, hlength, readWith_spaces h rfl, readWith_stop (by rwa [hrest])]
  rfl

/-- Breaks are kept without the indentation behind the last. -/
theorem read?_breaks {b : Char} (hcs : ∀ d ∈ b :: cs, isBreak d = true ∧ isPrintable d = true)
    (h : c.rest = b :: cs ++ (spaces n ++ tail)) (htail : ∀ d ∈ tail.head?, isBlank d = false ∧ isBreak d = false)
    (limit : Int) :
    read? limit {} c = some (⟨[], [b], cs, true⟩, c.after (b :: cs ++ spaces n)) := by
  obtain ⟨⟨hb, hprintable⟩, hcs⟩ := List.forall_mem_cons.1 hcs
  have hlength : c.rest.length = tail.length + n + cs.length + 1 := by
    simp only [h, List.length_append, List.length_cons, length_spaces]
    omega
  have hfirst : (c.after [b]).rest = cs ++ (spaces n ++ tail) := Cursor.rest_after (by rw [h]; rfl)
  have hsecond : ((c.after [b]).after cs).rest = spaces n ++ tail := Cursor.rest_after hfirst
  have hthird := Cursor.rest_after hsecond
  rw [read?, hlength, readWith]
  rw [List.cons_append] at h
  simp only [h, not_isBlank_of_isBreak hb, hb, Cursor.takeBreak_of_isBreak hb hprintable h, Bool.false_eq_true, if_false,
    if_true]
  rw [readWith_breaks hcs hfirst rfl, readWith_indentation hsecond rfl, readWith_stop (by rwa [hthird])]
  rw [Cursor.after_append, Cursor.after_cons]
  rfl

end Gap

/-! ### Words -/

/-- Induction over a text by its words, where the gaps between them are the characters of a class. -/
theorem gaps_induct {p : Char → Bool} {motive : List Char → Prop}
    (word : ∀ w, (∀ d ∈ w, p d = false) → motive w)
    (gap : ∀ w g rest, (∀ d ∈ w, p d = false) → g ≠ [] → (∀ d ∈ g, p d = true) → (∀ d ∈ rest.head?, p d = false) →
      motive rest → motive (w ++ (g ++ rest)))
    (cs : List Char) : motive cs := by
  induction hn : cs.length using Nat.strongRecOn generalizing cs with
  | ind n ih =>
    have hword : ∀ d ∈ cs.takeWhile (! p ·), p d = false := fun d hd => by simpa using List.mem_takeWhile_imp hd
    have hsplit := List.takeWhile_append_dropWhile (p := (! p ·)) (l := cs)
    generalize hafter : cs.dropWhile (! p ·) = after at hsplit
    cases after with
    | nil =>
      rw [← hsplit, List.append_nil]
      exact word _ hword
    | cons d rest =>
      have hd : p d = true := by
        have hhead := List.head?_dropWhile_not (! p ·) cs
        rw [hafter] at hhead
        simpa using hhead
      have hgap : ∀ e ∈ (d :: rest).takeWhile p, p e = true := fun e he => List.mem_takeWhile_imp he
      have hlength := congrArg List.length hsplit
      have hdrop := (List.dropWhile_suffix p (l := rest)).length_le
      rw [← hsplit, ← List.takeWhile_append_dropWhile (p := p) (l := d :: rest)]
      refine gap _ _ _ hword (by simp [hd]) hgap ?_ (ih _ ?_ _ rfl)
      · have hhead := List.head?_dropWhile_not p (d :: rest)
        cases hrest : (d :: rest).dropWhile p <;> simp_all
      · rw [List.dropWhile_cons_of_pos hd]
        rw [List.length_append, List.length_cons] at hlength
        omega

end FieldRules.Yaml
