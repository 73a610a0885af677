import FieldRules.Proofs.Yaml.Cursor

/-!
# Plain texts

A text that is written plain reads back as it was, up to the colon behind it or to the end of its line. The key facts:
`Unquoted.of_allowsPlain` (what the writer has made sure of) and `plain?_read`.
-/

namespace FieldRules.Yaml

variable {c c' : Cursor} {w cs rest tail extra text : List Char} {d : Char} {limit : Int} {fuel : Nat} {broken : Bool}

/-- What makes a text readable without quotes. -/
structure Unquoted (cs : List Char) : Prop where
  first : ∃ d rest, cs = d :: rest ∧ isSpace d = false
  last : cs.getLast? ≠ some ' '
  printable : ∀ d ∈ cs, isPrintable d = true
  oneLine : ∀ d ∈ cs, isBreak d = false
  colon : ∀ u v, cs = u ++ ':' :: v → blankAhead v = false
  sharp : ∀ u v, cs ≠ u ++ ' ' :: '#' :: v

private theorem of_hasInnerSign {before : Char} (h : hasInnerSign before cs = false) :
    (∀ u v, cs = u ++ ':' :: v → blankAhead v = false) ∧ ∀ u v, before :: cs ≠ u ++ ' ' :: '#' :: v := by
  induction cs generalizing before with
  | nil => exact ⟨fun u v h => absurd h (by simp), fun u v h => absurd (congrArg List.length h) (by simp; omega)⟩
  | cons d rest ih =>
    simp only [hasInnerSign, Bool.or_eq_false_iff, Bool.and_eq_false_iff, beq_eq_false_iff_ne] at h
    obtain ⟨⟨hcolon, hsharp⟩, hrest⟩ := h
    obtain ⟨ihcolon, ihsharp⟩ := ih hrest
    constructor
    · intro u v huv
      cases u with
      | nil =>
        obtain ⟨rfl, rfl⟩ := List.cons.inj huv
        exact hcolon.resolve_left fun h => h rfl
      | cons a u => exact ihcolon u v (List.cons.inj huv).2
    · intro u v huv
      cases u with
      | nil =>
        obtain ⟨rfl, hv⟩ := List.cons.inj huv
        obtain ⟨rfl, -⟩ := List.cons.inj hv
        exact hsharp.elim (fun h => h rfl) (fun h => absurd h (by decide))
      | cons a u => exact ihsharp u v (List.cons.inj huv).2

theorem Unquoted.of_allowsPlain (hne : cs ≠ []) (h : allowsPlain cs = true) : Unquoted cs := by
  obtain ⟨d, rest, rfl⟩ := List.exists_cons_of_ne_nil hne
  simp only [allowsPlain, Bool.and_eq_true, Bool.not_eq_true', List.all_eq_true, List.any_eq_false, List.head?_cons,
    Option.any_some, startsAsSign, Bool.or_eq_false_iff, Bool.and_eq_false_iff] at h
  obtain ⟨⟨⟨⟨⟨⟨hprintable, hlines⟩, hfirst⟩, hlast⟩, -⟩, -, hsign⟩, hinner⟩ := h
  obtain ⟨hcolon, hsharp⟩ := of_hasInnerSign hinner
  refine ⟨⟨d, rest, rfl, hfirst⟩, ?_, hprintable, by simpa using hlines, ?_, hsharp⟩
  · intro h
    simp [endsIn, h, isSpace] at hlast
  · intro u v huv
    cases u with
    | nil =>
      obtain ⟨rfl, rfl⟩ := List.cons.inj huv
      exact hsign.resolve_left (by decide)
    | cons a u => exact hcolon u v (List.cons.inj huv).2

/-- What is left behind a word and a gap is readable without quotes too. -/
private theorem Unquoted.right {g : List Char} (h : Unquoted (w ++ (g ++ rest))) (hne : g ≠ [])
    (hg : ∀ d ∈ g, isSpace d = true) (hrest : ∀ d ∈ rest.head?, isSpace d = false) :
    Unquoted rest ∧ rest.head? ≠ some '#' := by
  obtain ⟨front, last, rfl⟩ := (List.eq_nil_or_concat' g).resolve_left hne
  have hlast : last = ' ' := by simpa [isSpace] using hg last (by simp)
  subst hlast
  have hsplit : w ++ (front ++ [' '] ++ rest) = (w ++ front) ++ ' ' :: rest := by simp
  rw [hsplit] at h
  cases rest with
  | nil => exact absurd (by simp) h.last
  | cons d more =>
    have hmem {e : Char} (he : e ∈ d :: more) : e ∈ (w ++ front) ++ ' ' :: d :: more := by
      simp only [List.mem_append, List.mem_cons] at he ⊢
      tauto
    refine ⟨⟨⟨d, more, rfl, hrest d rfl⟩, ?_, fun e he => h.printable e (hmem he), fun e he => h.oneLine e (hmem he), ?_,
      ?_⟩, ?_⟩
    · have hlast := h.last
      rwa [List.getLast?_append, List.getLast?_cons_cons, Option.or_of_isSome (by simp)] at hlast
    · intro u v huv
      exact h.colon (w ++ front ++ ' ' :: u) v (by simp [huv])
    · intro u v huv
      exact h.sharp (w ++ front ++ ' ' :: u) v (by simp [huv])
    · intro hd
      obtain rfl : d = '#' := by simpa using hd
      exact h.sharp (w ++ front) more rfl

/-! ### Words -/

private theorem plainWord_append (hw : ∀ d ∈ w, blankAhead [d] = false ∧ isBreak d = false)
    (hcolon : ∀ u v, w = u ++ ':' :: v → blankAhead (v ++ tail) = false) (hrest : c.rest = w ++ tail) (fuel : Nat)
    (word : List Char) :
    plainWord false (fuel + w.length) word c = plainWord false fuel (word ++ w) (c.after w) := by
  induction w generalizing c word with
  | nil => simp [Cursor.after]
  | cons d w ih =>
    obtain ⟨⟨hblank, hbreak⟩, hw⟩ := List.forall_mem_cons.1 hw
    have hcolon' : (d == ':' && blankAhead (w ++ tail)) = false := by
      by_cases hd : d = ':'
      · simp [hd, hcolon [] w (by simp [hd])]
      · simp [hd]
    have hnext : (c.pass d).rest = w ++ tail := by
      rw [Cursor.rest_pass, hrest]
      rfl
    rw [List.cons_append] at hrest
    rw [List.length_cons, ← Nat.add_assoc, plainWord, hrest]
    simp only [hblank, hcolon', Bool.false_and, Bool.or_self, Bool.false_eq_true, if_false]
    rw [← Cursor.pass_of_not_isBreak hbreak, ih hw (fun u v huv => hcolon (d :: u) v (by simp [huv])) hnext,
      List.append_assoc]
    rfl

/-- Where a plain word ends: at a blank, at a break, or at a colon with one of these behind it. -/
def EndsPlainWord : List Char → Prop
  | [] => True
  | d :: rest => blankAhead [d] = true ∨ d = ':' ∧ blankAhead rest = true

private theorem plainWord_stop (h : EndsPlainWord c.rest) (fuel : Nat) (word : List Char) :
    plainWord false fuel word c = some (word, c) := by
  cases fuel with
  | zero => rfl
  | succ fuel =>
    rw [plainWord]
    cases hrest : c.rest with
    | nil => rfl
    | cons d rest =>
      rw [hrest] at h
      obtain hblank | ⟨rfl, hblank⟩ := h
      · simp [hblank]
      · simp [hblank]

private theorem plainWord_read (hw : ∀ d ∈ w, blankAhead [d] = false ∧ isBreak d = false)
    (hcolon : ∀ u v, w = u ++ ':' :: v → blankAhead (v ++ tail) = false) (hrest : c.rest = w ++ tail)
    (hends : EndsPlainWord tail) : plainWord false c.rest.length [] c = some (w, c.after w) := by
  have hlength : c.rest.length = tail.length + w.length := by rw [hrest, List.length_append, Nat.add_comm]
  rw [hlength, plainWord_append hw hcolon hrest, plainWord_stop (by rwa [Cursor.rest_after hrest])]
  rfl

/-! ### Whole texts -/

/-- What follows a plain text, how much of it is read with the text, and whether that goes over the end of the line: the
colon behind a key is left, and the end of a line is read with the indentation of the next line, which is too small for
the text to go on. -/
inductive EndsPlain (limit : Int) : List Char → List Char → Bool → Prop
  | colon {rest : List Char} : blankAhead rest = true → EndsPlain limit (':' :: rest) [] false
  | line {n : Nat} {rest : List Char} : (n : Int) < limit → (∀ d ∈ rest.head?, isBlank d = false ∧ isBreak d = false) →
      EndsPlain limit ('\n' :: (spaces n ++ rest)) ('\n' :: spaces n) true

private theorem EndsPlain.endsPlainWord (h : EndsPlain limit tail extra broken) : EndsPlainWord tail := by
  cases h with
  | colon hblank => exact .inr ⟨rfl, hblank⟩
  | line => exact .inl rfl

private theorem plainWith_end (hedge : c.atDocumentEdge = false) (hsharp : c.rest.head? ≠ some '#') (hne : w ≠ [])
    (hword : plainWord false c.rest.length [] c = some (w, c.after w)) (hrest : c.rest = w ++ tail)
    (hend : EndsPlain limit tail extra broken) (fuel : Nat) (text : List Char) (gap : Gap) :
    plainWith false limit (fuel + 1) text gap c =
      some (String.ofList (text ++ gap.text ++ w), c.after (w ++ extra), broken) := by
  have hw : w.isEmpty = false := by simpa using hne
  have htail := Cursor.rest_after hrest
  rw [plainWith]
  simp only [hedge, hsharp, decide_false, Bool.or_self, Bool.false_eq_true, if_false, hword, hw, Option.bind_eq_bind,
    Option.bind_some]
  cases hend with
  | colon hblank =>
    have hblank' : (c.after w).atBlank = false := by simp [Cursor.atBlank, htail, isBlank]
    have hbreak' : (c.after w).atBreak = false := by simp [Cursor.atBreak, htail, isBreak]
    simp [hblank', hbreak']
  | @line n rest hn hsolid =>
    have hbreak' : (c.after w).atBreak = true := by simp [Cursor.atBreak, htail, isBreak]
    have hgap : Gap.read? limit {} (c.after w) = some (⟨[], ['\n'], [], true⟩, (c.after w).after ('\n' :: spaces n)) :=
      Gap.read?_breaks (List.forall_mem_singleton.2 (by decide)) htail hsolid limit
    have hcolumn : ((c.after w).after ('\n' :: spaces n)).column = n :=
      Cursor.column_after_breaks (List.forall_mem_singleton.2 (by decide)) (List.cons_ne_nil '\n' []) _ n
    simp only [hbreak', Bool.not_true, Bool.and_false, Bool.false_eq_true, if_false]
    simp [hgap, hcolumn, hn, Cursor.after_append]

private theorem plainWith_gap {n : Nat} (hedge : c.atDocumentEdge = false) (hsharp : c.rest.head? ≠ some '#')
    (hne : w ≠ []) (hword : plainWord false c.rest.length [] c = some (w, c.after w))
    (hrest : c.rest = w ++ (spaces (n + 1) ++ rest))
    (hsolid : ∀ d ∈ rest.head?, isBlank d = false ∧ isBreak d = false)
    (hcolumn : limit ≤ (((c.after w).after (spaces (n + 1))).column : Int)) (fuel : Nat) (text : List Char)
    (gap : Gap) :
    plainWith false limit (fuel + 1) text gap c =
      plainWith false limit fuel (text ++ gap.text ++ w) { blanks := spaces (n + 1) }
        ((c.after w).after (spaces (n + 1))) := by
  have hw : w.isEmpty = false := by simpa using hne
  have htail := Cursor.rest_after hrest
  have hblank' : (c.after w).atBlank = true := by simp [Cursor.atBlank, htail, spaces_succ, isBlank]
  rw [plainWith]
  simp only [hedge, hsharp, decide_false, Bool.or_self, Bool.false_eq_true, if_false, hword, hw, Option.bind_eq_bind,
    Option.bind_some, hblank', Bool.not_true, Bool.false_and, Gap.read?_spaces htail hsolid]
  simp [Int.not_lt.2 hcolumn]

private theorem plainWith_read (h : Unquoted cs) (hsharp : cs.head? ≠ some '#')
    (hend : EndsPlain limit tail extra broken) (hfuel : cs.length < fuel) (hedge : c.atDocumentEdge = false)
    (hcolumn : limit ≤ (c.column : Int) + 1) (hrest : c.rest = cs ++ tail) (text : List Char) (gap : Gap) :
    plainWith false limit fuel text gap c =
      some (String.ofList (text ++ gap.text ++ cs), c.after (cs ++ extra), broken) := by
  have hsolid {w : List Char} (hprintable : ∀ d ∈ w, isPrintable d = true) (hlines : ∀ d ∈ w, isBreak d = false)
      (hw : ∀ d ∈ w, isSpace d = false) : ∀ d ∈ w, blankAhead [d] = false ∧ isBreak d = false := fun d hd =>
    ⟨not_blankAhead_of_isPrintable (hprintable d hd) (hw d hd) (hlines d hd) [], hlines d hd⟩
  induction cs using gaps_induct (p := isSpace) generalizing fuel text c gap with
  | word w hw =>
    obtain ⟨fuel, rfl⟩ := Nat.exists_eq_succ_of_ne_zero (Nat.ne_zero_of_lt hfuel)
    obtain ⟨d, more, rfl, -⟩ := h.first
    have hword := plainWord_read (hsolid h.printable h.oneLine hw)
      (fun u v huv => blankAhead_append (h.colon u v huv) tail) hrest hend.endsPlainWord
    exact plainWith_end hedge (by simpa [hrest] using hsharp) (List.cons_ne_nil d more) hword hrest hend fuel text gap
  | gap w g rest hw hne hg hsolidRest ih =>
    obtain ⟨fuel, rfl⟩ := Nat.exists_eq_succ_of_ne_zero (Nat.ne_zero_of_lt hfuel)
    obtain ⟨hright, hsharp'⟩ := h.right hne hg hsolidRest
    obtain ⟨n, rfl⟩ := exists_eq_spaces hne hg
    have hwords := hsolid (fun d hd => h.printable d (by simp [hd])) (fun d hd => h.oneLine d (by simp [hd])) hw
    have hnew : w ≠ [] := by
      rintro rfl
      obtain ⟨d, more, hd, hspace⟩ := h.first
      obtain ⟨rfl, -⟩ := List.cons.inj hd
      exact absurd hspace (by decide)
    have hhead : ∀ d ∈ (rest ++ tail).head?, isBlank d = false ∧ isBreak d = false := by
      obtain ⟨d, more, rfl, hspace⟩ := hright.first
      rintro e ⟨⟩
      have hbreak := hright.oneLine d List.mem_cons_self
      have hblank := not_blankAhead_of_isPrintable (hright.printable d List.mem_cons_self) hspace hbreak []
      rw [blankAhead, Bool.or_eq_false_iff] at hblank
      exact ⟨hblank.1, hbreak⟩
    rw [List.append_assoc, List.append_assoc] at hrest
    have hword := plainWord_read hwords
      (fun u v huv => by
        have hcolon := h.colon u (v ++ (spaces (n + 1) ++ rest)) (by simp [huv])
        simpa using blankAhead_append hcolon tail)
      hrest (.inl (by decide))
    have htail := Cursor.rest_after hrest
    have hplace : ((c.after w).after (spaces (n + 1))).column = c.column + w.length + (n + 1) := by
      rw [Cursor.column_after_of_not_isBreak isBreak_of_mem_spaces, length_spaces,
        Cursor.column_after_of_not_isBreak fun d hd => (hwords d hd).2]
    have hsharp'' : c.rest.head? ≠ some '#' := by
      obtain ⟨d, more, rfl⟩ := List.exists_cons_of_ne_nil hnew
      simpa [hrest] using hsharp
    rw [plainWith_gap hedge hsharp'' hnew hword hrest hhead (by omega),
      ih hright hsharp' ?_ (Cursor.atDocumentEdge_of_column (by omega)) (by omega) (Cursor.rest_after htail)]
    · simp [Gap.text, Cursor.after_append]
    · simp only [List.length_append, length_spaces] at hfuel
      omega

theorem plain?_read (h : Unquoted cs) (hsharp : cs.head? ≠ some '#') (hend : EndsPlain limit tail extra broken)
    (hedge : c.atDocumentEdge = false) (hcolumn : limit ≤ (c.column : Int) + 1) (hrest : c.rest = cs ++ tail) :
    plain? false limit c = some (String.ofList cs, c.after (cs ++ extra), broken) := by
  rw [plain?, plainWith_read h hsharp hend ?_ hedge hcolumn hrest]
  · rfl
  · rw [hrest, List.length_append]
    omega

end FieldRules.Yaml
