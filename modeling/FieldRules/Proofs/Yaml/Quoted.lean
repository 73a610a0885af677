import FieldRules.Proofs.Yaml.Cursor
import Mathlib.Data.List.Chain

/-!
# Texts in quotes

A text written in quotes reads back as it was. The key facts: `StandsFor` (what is written for a character is read as the
character), `quotedWith_end` and `quotedWith_gap` (a word, and the gap behind it), and from them `quoted?_single` and
`quoted?_double`.
-/

namespace FieldRules.Yaml

variable {c c' : Cursor} {quote d : Char} {unit : Char → List Char} {w cs tail text : List Char} {fuel n : Nat}

/-! ### Words in quotes -/

/-- What is written within quotes for one character of a word. -/
structure StandsFor (quote : Char) (written : List Char) (d : Char) : Prop where
  starts : ∃ e more, written = e :: more ∧ isBlank e = false
  oneLine : ∀ e ∈ written, isBreak e = false
  read : ∀ fuel word (c : Cursor) tail, c.rest = written ++ tail →
    quotedWord quote (fuel + 1) word c = quotedWord quote fuel (word ++ [d]) (c.after written)

private theorem StandsFor.ne_nil {written : List Char} (h : StandsFor quote written d) : written ≠ [] := by
  obtain ⟨e, more, rfl, -⟩ := h.starts
  exact List.cons_ne_nil e more

theorem length_le_flatMap {α : Type} {unit : Char → List α} (h : ∀ d ∈ w, unit d ≠ []) :
    w.length ≤ (w.flatMap unit).length := by
  induction w with
  | nil => exact Nat.le_refl _
  | cons d w ih =>
    obtain ⟨hd, hw⟩ := List.forall_mem_cons.1 h
    have := List.length_pos_iff.2 hd
    have := ih hw
    simp only [List.flatMap_cons, List.length_append, List.length_cons]
    omega

theorem length_flatMap_le {m : Nat} (h : ∀ d, (unit d).length ≤ m) (w : List Char) :
    (w.flatMap unit).length ≤ m * w.length := by
  induction w with
  | nil => exact Nat.zero_le _
  | cons d w ih =>
    rw [List.flatMap_cons, List.length_append, List.length_cons, Nat.mul_succ, Nat.add_comm]
    exact Nat.add_le_add ih (h d)

private theorem isBreak_of_mem_flatMap (h : ∀ d ∈ w, StandsFor quote (unit d) d) :
    ∀ e ∈ w.flatMap unit, isBreak e = false := by
  intro e he
  obtain ⟨d, hd, he⟩ := List.mem_flatMap.1 he
  exact (h d hd).oneLine e he

private theorem quotedWord_flatMap (h : ∀ d ∈ w, StandsFor quote (unit d) d) (hrest : c.rest = w.flatMap unit ++ tail)
    (fuel : Nat) (word : List Char) :
    quotedWord quote (fuel + w.length) word c = quotedWord quote fuel (word ++ w) (c.after (w.flatMap unit)) := by
  induction w generalizing c word with
  | nil => simp [Cursor.after]
  | cons d w ih =>
    obtain ⟨hd, hw⟩ := List.forall_mem_cons.1 h
    rw [List.flatMap_cons, List.append_assoc] at hrest
    rw [List.length_cons, ← Nat.add_assoc, hd.read _ word c _ hrest, ih hw (Cursor.rest_after hrest), List.append_assoc,
      List.flatMap_cons, Cursor.after_append]
    rfl

/-- Where a word ends: at a blank, at a break, or at the closing quote. -/
def EndsWord (quote : Char) : List Char → Prop
  | [] => True
  | d :: rest => blankAhead [d] = true ∨ d = quote ∧ (quote = '\'' → rest.head? ≠ some '\'')

private theorem quotedWord_stop (h : EndsWord quote c.rest) (fuel : Nat) (word : List Char) :
    quotedWord quote fuel word c = some (word, c, false) := by
  cases fuel with
  | zero => rfl
  | succ fuel =>
    rw [quotedWord]
    cases hrest : c.rest with
    | nil => rfl
    | cons d rest =>
      rw [hrest] at h
      obtain hblank | ⟨rfl, hsingle⟩ := h
      · simp [hblank]
      · by_cases hd : d = '\''
        · simp [hd, hsingle hd]
        · simp [hd]

private theorem quotedWord_read (h : ∀ d ∈ w, StandsFor quote (unit d) d) (hrest : c.rest = w.flatMap unit ++ tail)
    (hends : EndsWord quote tail) :
    quotedWord quote c.rest.length [] c = some (w, c.after (w.flatMap unit), false) := by
  have hlength : c.rest.length = (c.rest.length - w.length) + w.length := by
    have := length_le_flatMap fun d hd => (h d hd).ne_nil
    simp only [hrest, List.length_append]
    omega
  rw [hlength, quotedWord_flatMap h hrest, quotedWord_stop (by rwa [Cursor.rest_after hrest])]
  rfl

/-- The last word and the closing quote. -/
theorem quotedWith_end (hedge : c.atDocumentEdge = false) (h : ∀ d ∈ w, StandsFor quote (unit d) d)
    (hquote : isBreak quote = false) (hrest : c.rest = w.flatMap unit ++ quote :: tail)
    (hends : EndsWord quote (quote :: tail)) (fuel : Nat) (text : List Char) :
    quotedWith quote (fuel + 1) text c = some (String.ofList (text ++ w), c.after (w.flatMap unit ++ [quote])) := by
  have hne : c.rest.isEmpty = false := by simp [hrest]
  have hclosed := Cursor.rest_after hrest
  rw [quotedWith]
  simp only [hedge, hne, Bool.or_self, Bool.false_eq_true, if_false, quotedWord_read h hrest hends]
  simp [hclosed, Cursor.skip_eq_after hquote, Cursor.after_append]

/-- A word and the gap behind it. -/
theorem quotedWith_gap (hedge : c.atDocumentEdge = false) (h : ∀ d ∈ w, StandsFor quote (unit d) d)
    (hrest : c.rest = w.flatMap unit ++ d :: tail) (hblank : blankAhead [d] = true) (hquote : d ≠ quote) {g : Gap}
    (hgap : Gap.read? 0 {} (c.after (w.flatMap unit)) = some (g, c')) (fuel : Nat) (text : List Char) :
    quotedWith quote (fuel + 1) text c = quotedWith quote fuel (text ++ w ++ g.text) c' := by
  have hne : c.rest.isEmpty = false := by simp [hrest]
  have hopen := Cursor.rest_after hrest
  rw [quotedWith]
  simp only [hedge, hne, Bool.or_self, Bool.false_eq_true, if_false, quotedWord_read h hrest (.inl hblank)]
  simp [hopen, hquote, hgap]

/-! ### Double quotes -/

private theorem standsFor_self (hblank : blankAhead [d] = false) (hbreak : isBreak d = false) (hquote : d ≠ quote)
    (hslash : quote = '"' → d ≠ '\\') : StandsFor quote [d] d where
  starts := ⟨d, [], rfl, by
    rw [blankAhead, Bool.or_eq_false_iff] at hblank
    exact hblank.1⟩
  oneLine := by simpa using hbreak
  read fuel word c tail h := by
    rw [List.singleton_append] at h
    have hescape : (quote == '"' && d == '\\') = false := by
      by_cases hq : quote = '"' <;> simp_all
    rw [quotedWord, h]
    simp only [hblank, beq_eq_false_iff_ne.2 hquote, hescape, Bool.false_eq_true, if_false, Cursor.skip_eq_after hbreak]

/-- An escape is read as the character it stands for. -/
private theorem standsFor_escape {e : Char} {more : List Char} (hlines : ∀ x ∈ e :: more, isBreak x = false)
    (h : ∀ tail, escape? (e :: more ++ tail) = some (d, more.length + 1)) : StandsFor '"' ('\\' :: e :: more) d where
  starts := ⟨'\\', _, rfl, by decide⟩
  oneLine := List.forall_mem_cons.2 ⟨by decide, hlines⟩
  read fuel word c tail hrest := by
    have he : isBreak e = false := hlines e List.mem_cons_self
    have hslash : blankAhead ['\\'] = false := by decide
    have hskip : c.skipMany (more.length + 1 + 1) = c.after ('\\' :: e :: more) :=
      Cursor.skipMany_eq_after (List.forall_mem_cons.2 ⟨by decide, hlines⟩) c
    have hescape := h tail
    rw [List.cons_append] at hescape
    rw [quotedWord, hrest]
    simp [hslash, he, hescape, hskip]

private theorem charOfHex?_append {digits : List Char} (hlength : digits.length = n) (tail : List Char) :
    charOfHex? n (digits ++ tail) = charOfHex? n digits := by
  simp [charOfHex?, ← hlength]

/-- The digits of an escape name their number. -/
private theorem upperHex_reads : ∀ m < 256, (upperHex 2 m).length = 2 ∧ (upperHex 2 m).all (! isBreak ·) = true ∧
    charOfHex? 2 (upperHex 2 m) = some (Char.ofNat m) ∧ (upperHex 2 m).all isPrintable = true := by
  decide +kernel

private theorem upperHex_reads_wide : ∀ m ∈ [0xFEFF, 0xFFFE, 0xFFFF], (upperHex 4 m).length = 4 ∧
    (upperHex 4 m).all (! isBreak ·) = true ∧ charOfHex? 4 (upperHex 4 m) = some (Char.ofNat m) ∧
    (upperHex 4 m).all isPrintable = true := by
  decide +kernel

private theorem standsFor_hex {e : Char} (hwidth : escapeWidth? e = some n) (he : isBreak e = false)
    {digits : List Char} (hlength : digits.length = n) (hlines : digits.all (! isBreak ·) = true)
    (hdigits : charOfHex? n digits = some d) : StandsFor '"' ('\\' :: e :: digits) d := by
  refine standsFor_escape (List.forall_mem_cons.2 ⟨he, by simpa using hlines⟩) fun tail => ?_
  rw [List.cons_append, escape?, hwidth]
  simp [charOfHex?_append hlength, hdigits, hlength]

/-- The characters beyond the first 256 that cannot be seen. -/
private theorem mem_of_not_isPrintable (hd : isPrintable d = false) (h : ¬ d.toNat ≤ 0xFF) :
    d.toNat ∈ [0xFEFF, 0xFFFE, 0xFFFF] := by
  simp only [isPrintable, Bool.or_eq_false_iff, Bool.and_eq_false_iff, decide_eq_false_iff_not, bne_eq_false_iff_eq] at hd
  simp only [List.mem_cons, List.not_mem_nil, or_false]
  omega

/-- What is written between double quotes for a character other than a space stands for it. -/
private theorem standsFor_escapeDouble (hspace : isSpace d = false) : StandsFor '"' (escapeDouble d) d := by
  have hnamed {e : Char} (he : isBreak e = false) (h : ∀ tail, escape? (e :: tail) = some (d, 1)) :
      StandsFor '"' ['\\', e] d := standsFor_escape (by simpa using he) h
  unfold escapeDouble
  split
  iterate 14 exact hnamed (by decide) fun _ => rfl
  rename_i hnewline _ _ hreturn _ hquote hslash hnext hline hparagraph
  have hbreak : isBreak d = false := by
    simp only [isBreak, Bool.or_eq_false_iff, beq_eq_false_iff_ne]
    exact ⟨⟨⟨⟨hnewline, hreturn⟩, hnext⟩, hline⟩, hparagraph⟩
  dsimp only
  split
  · rename_i hprintable
    exact standsFor_self (not_blankAhead_of_isPrintable hprintable hspace hbreak []) hbreak hquote fun _ => hslash
  · rename_i hprintable
    split
    · rename_i hsmall
      obtain ⟨hlength, hlines, hdigits, -⟩ := upperHex_reads d.toNat (Nat.lt_succ_of_le hsmall)
      rw [Char.ofNat_toNat] at hdigits
      exact standsFor_hex rfl (by decide) hlength hlines hdigits
    · rename_i hlarge
      have hmem := mem_of_not_isPrintable (by simpa using hprintable) hlarge
      have hwide : d.toNat ≤ 0xFFFF := by
        simp only [List.mem_cons, List.not_mem_nil, or_false] at hmem
        omega
      obtain ⟨hlength, hlines, hdigits, -⟩ := upperHex_reads_wide d.toNat hmem
      rw [Char.ofNat_toNat] at hdigits
      rw [if_pos hwide]
      exact standsFor_hex rfl (by decide) hlength hlines hdigits

/-- What is written for a character is short and can be seen. -/
theorem escapeDouble_written (d : Char) :
    (escapeDouble d).length ≤ 6 ∧ ∀ e ∈ escapeDouble d, isPrintable e = true := by
  rw [← List.all_eq_true]
  unfold escapeDouble
  split
  iterate 14 decide
  dsimp only
  split
  · rename_i hprintable
    exact ⟨by simp, by simpa using hprintable⟩
  · rename_i hprintable
    split
    · rename_i hsmall
      obtain ⟨hlength, -, -, hdigits⟩ := upperHex_reads d.toNat (Nat.lt_succ_of_le hsmall)
      exact ⟨by simp [hlength], by simp only [List.all_cons, hdigits]; decide⟩
    · rename_i hlarge
      have hmem := mem_of_not_isPrintable (by simpa using hprintable) hlarge
      have hwide : d.toNat ≤ 0xFFFF := by
        simp only [List.mem_cons, List.not_mem_nil, or_false] at hmem
        omega
      obtain ⟨hlength, -, -, hdigits⟩ := upperHex_reads_wide d.toNat hmem
      rw [if_pos hwide]
      exact ⟨by simp [hlength], by simp only [List.all_cons, hdigits]; decide⟩

theorem isBreak_of_mem_escapeDouble (d : Char) : ∀ e ∈ escapeDouble d, isBreak e = false := by
  cases hd : isSpace d with
  | true =>
    obtain rfl : d = ' ' := by simpa [isSpace] using hd
    exact forall_mem_of_all (by decide)
  | false => exact (standsFor_escapeDouble hd).oneLine

/-- Behind a gap stands something that does not belong to it. -/
private theorem head?_flatMap (h : ∀ d ∈ cs.head?, StandsFor quote (unit d) d) (hblank : isBlank quote = false)
    (hbreak : isBreak quote = false) :
    ∀ e ∈ (cs.flatMap unit ++ quote :: tail).head?, isBlank e = false ∧ isBreak e = false := by
  intro e he
  cases cs with
  | nil =>
    obtain rfl : quote = e := by simpa using he
    exact ⟨hblank, hbreak⟩
  | cons d rest =>
    have hd := h d rfl
    obtain ⟨x, more, hunit, hx⟩ := hd.starts
    obtain rfl : x = e := by simpa [hunit] using he
    exact ⟨hx, hd.oneLine x (by simp [hunit])⟩

private theorem flatMap_spaces (h : unit ' ' = [' ']) (n : Nat) : (spaces n).flatMap unit = spaces n := by
  induction n with
  | zero => rfl
  | succ n ih => rw [spaces_succ, List.flatMap_cons, h, ih, List.singleton_append]

private theorem quotedWith_double (hfuel : cs.length < fuel) (hcolumn : 0 < c.column)
    (hrest : c.rest = cs.flatMap escapeDouble ++ '"' :: tail) (text : List Char) :
    quotedWith '"' fuel text c =
      some (String.ofList (text ++ cs), c.after (cs.flatMap escapeDouble ++ ['"'])) := by
  induction cs using gaps_induct (p := isSpace) generalizing fuel text c with
  | word w hw =>
    obtain ⟨fuel, rfl⟩ := Nat.exists_eq_succ_of_ne_zero (Nat.ne_zero_of_lt hfuel)
    exact quotedWith_end (Cursor.atDocumentEdge_of_column hcolumn) (fun d hd => standsFor_escapeDouble (hw d hd))
      (by decide) hrest (.inr ⟨rfl, fun h => absurd h (by decide)⟩) fuel text
  | gap w g rest hw hne hg hsolid ih =>
    obtain ⟨fuel, rfl⟩ := Nat.exists_eq_succ_of_ne_zero (Nat.ne_zero_of_lt hfuel)
    obtain ⟨n, rfl⟩ := exists_eq_spaces hne hg
    have hunits : ∀ d ∈ w, StandsFor '"' (escapeDouble d) d := fun d hd => standsFor_escapeDouble (hw d hd)
    have hspaces : (spaces (n + 1)).flatMap escapeDouble = spaces (n + 1) := flatMap_spaces rfl _
    rw [List.flatMap_append, List.flatMap_append, hspaces, List.append_assoc, List.append_assoc] at hrest
    have hword := Cursor.rest_after hrest
    have hgap := Gap.read?_spaces hword
      (head?_flatMap (fun d hd => standsFor_escapeDouble (hsolid d hd)) (by decide) (by decide)) 0
    rw [quotedWith_gap (Cursor.atDocumentEdge_of_column hcolumn) hunits hrest (by decide) (by decide) hgap,
      ih ?_ ?_ (Cursor.rest_after hword)]
    · simp [Gap.text, hspaces, Cursor.after_append]
    · simp only [List.length_append, length_spaces] at hfuel
      omega
    · rw [Cursor.column_after_of_not_isBreak isBreak_of_mem_spaces, length_spaces]
      omega

theorem quoted?_double (hcolumn : 0 < c.column) (hrest : c.rest = cs.flatMap escapeDouble ++ '"' :: tail) :
    quoted? '"' c = some (String.ofList cs, c.after (cs.flatMap escapeDouble ++ ['"'])) := by
  have hunits : ∀ d ∈ cs, escapeDouble d ≠ [] := by
    intro d _
    cases hd : isSpace d with
    | true =>
      obtain rfl : d = ' ' := by simpa [isSpace] using hd
      decide
    | false => exact (standsFor_escapeDouble hd).ne_nil
  have hlength := length_le_flatMap hunits
  rw [quoted?, quotedWith_double ?_ hcolumn hrest, List.nil_append]
  rw [hrest, List.length_append, List.length_cons]
  omega

/-! ### Single quotes -/

/-- What is written between single quotes for a character of a word. -/
def singleUnit (d : Char) : List Char := if d == '\'' then ['\'', '\''] else [d]

private theorem standsFor_singleUnit (hprintable : isPrintable d) (hspace : isSpace d = false)
    (hbreak : isBreak d = false) :
    StandsFor '\'' (singleUnit d) d := by
  unfold singleUnit
  by_cases hd : d = '\''
  · subst hd
    refine ⟨⟨'\'', ['\''], rfl, by decide⟩, forall_mem_of_all (by decide), fun fuel word c tail h => ?_⟩
    have hskip : c.skipMany ['\'', '\''].length = _ := Cursor.skipMany_eq_after (forall_mem_of_all (by decide)) c
    have hblank : blankAhead ['\''] = false := by decide
    simp only [beq_self_eq_true, if_true] at h ⊢
    rw [quotedWord, h]
    simpa [hblank] using congrArg (quotedWord '\'' fuel (word ++ ['\''])) hskip
  · rw [if_neg (by simpa using hd)]
    exact standsFor_self (not_blankAhead_of_isPrintable hprintable hspace hbreak []) hbreak hd
      fun h => absurd h (by decide)

theorem singleBody_append (h : ∀ d ∈ w, isBreak d = false) (n : Nat) (rest : List Char) :
    singleBody n false (w ++ rest) = w.flatMap singleUnit ++ singleBody n false rest := by
  induction w with
  | nil => rfl
  | cons d w ih =>
    obtain ⟨hd, hw⟩ := List.forall_mem_cons.1 h
    rw [List.cons_append, singleBody, if_neg (by simp [hd]), ih hw]
    simp [singleUnit]

private theorem singleBody_of_isBreak (h : ∀ b ∈ w, isBreak b = true) (hne : w ≠ []) (n : Nat) (atBreak : Bool)
    (rest : List Char) : singleBody n atBreak (w ++ rest) = w ++ singleBody n true rest := by
  induction w generalizing atBreak with
  | nil => exact absurd rfl hne
  | cons b w ih =>
    obtain ⟨hb, hw⟩ := List.forall_mem_cons.1 h
    rw [List.cons_append, singleBody, if_pos hb]
    by_cases hnil : w = []
    · simp [hnil]
    · rw [ih hw hnil]
      rfl

private theorem singleBody_indented (h : isBreak d = false) (n : Nat) (rest : List Char) :
    singleBody n true (d :: rest) = spaces n ++ singleBody n false (d :: rest) := by
  simp [singleBody, h]

/-- Whether a text may be written between single quotes. -/
structure Single (cs : List Char) : Prop where
  printable : ∀ d ∈ cs, isPrintable d = true
  noSpaceBehind : cs.IsChain fun a b => ¬ (isBreak a = true ∧ isSpace b = true)
  noSpaceBefore : cs.IsChain fun a b => ¬ (isSpace a = true ∧ isBreak b = true)

private theorem isChain_of_hasPair {p q : Char → Bool} (h : hasPair p q cs = false) :
    cs.IsChain fun a b => ¬ (p a = true ∧ q b = true) := by
  induction cs with
  | nil => exact .nil
  | cons a rest ih =>
    cases rest with
    | nil => exact .singleton a
    | cons b rest =>
      simp only [hasPair, Bool.or_eq_false_iff, Bool.and_eq_false_iff] at h
      refine .cons_cons ?_ (ih h.2)
      simpa [Bool.and_eq_false_iff, imp_iff_not_or] using h.1

theorem Single.of_allowsSingle (h : allowsSingle cs = true) : Single cs := by
  simp only [allowsSingle, Bool.and_eq_true, Bool.not_eq_true', List.all_eq_true] at h
  obtain ⟨⟨hprintable, hbehind⟩, hbefore⟩ := h
  exact ⟨hprintable, isChain_of_hasPair hbehind, isChain_of_hasPair hbefore⟩

private theorem Single.right (h : Single (w ++ cs)) : Single cs :=
  ⟨fun d hd => h.printable d (List.mem_append_right w hd), h.noSpaceBehind.right_of_append,
    h.noSpaceBefore.right_of_append⟩

private theorem Single.left (h : Single (w ++ cs)) : Single w :=
  ⟨fun d hd => h.printable d (List.mem_append_left cs hd), h.noSpaceBehind.left_of_append,
    h.noSpaceBefore.left_of_append⟩

/-- A gap is made of spaces or of breaks. -/
private theorem Single.gap (h : Single cs) (hgap : ∀ d ∈ cs, isSpace d = true ∨ isBreak d = true) :
    (∀ d ∈ cs, isSpace d = true) ∨ (∀ d ∈ cs, isBreak d = true) := by
  induction cs with
  | nil => exact .inl fun d hd => absurd hd List.not_mem_nil
  | cons a rest ih =>
    obtain ⟨ha, hrest⟩ := List.forall_mem_cons.1 hgap
    cases rest with
    | nil => simpa using ha
    | cons b more =>
      have hbehind := (List.isChain_cons_cons.1 h.noSpaceBehind).1
      have hbefore := (List.isChain_cons_cons.1 h.noSpaceBefore).1
      rcases ih (h.right (w := [a])) hrest with hspaces | hbreaks
      · refine .inl (List.forall_mem_cons.2 ⟨?_, hspaces⟩)
        exact ha.resolve_right fun hbreak => hbehind ⟨hbreak, hspaces b List.mem_cons_self⟩
      · refine .inr (List.forall_mem_cons.2 ⟨?_, hbreaks⟩)
        exact ha.resolve_left fun hspace => hbefore ⟨hspace, hbreaks b List.mem_cons_self⟩

private theorem head?_singleBody (hprintable : ∀ d ∈ cs, isPrintable d = true)
    (hsolid : ∀ d ∈ cs.head?, (isSpace d || isBreak d) = false) (n : Nat) (tail : List Char) :
    ∀ e ∈ (singleBody n false cs ++ '\'' :: tail).head?, isBlank e = false ∧ isBreak e = false := by
  cases cs with
  | nil =>
    rintro e ⟨⟩
    decide
  | cons d rest =>
    obtain ⟨hspace, hbreak⟩ := Bool.or_eq_false_iff.1 (hsolid d rfl)
    have hd := standsFor_singleUnit (hprintable d List.mem_cons_self) hspace hbreak
    obtain ⟨x, more, hunit, hx⟩ := hd.starts
    have hword : singleBody n false (d :: rest) = _ := singleBody_append (w := [d]) (by simpa using hbreak) n rest
    intro e he
    obtain rfl : x = e := by simpa [hword, hunit] using he
    exact ⟨hx, hd.oneLine x (by simp [hunit])⟩

/-- What is written for the gap between two words, with the indentation of the line that the next word may begin, is read
as the gap. -/
private theorem exists_gap_singleBody {g rest : List Char} (hn : 0 < n) (h : Single (g ++ rest)) (hnewline : '\n' ∉ g)
    (hne : g ≠ []) (hg : ∀ d ∈ g, (isSpace d || isBreak d) = true)
    (hsolid : ∀ d ∈ rest.head?, (isSpace d || isBreak d) = false) (tail : List Char) :
    ∃ d more gap, singleBody n false (g ++ rest) = d :: more ++ singleBody n false rest ∧
      blankAhead [d] = true ∧ d ≠ '\'' ∧ gap.text = g ∧
      ∀ c : Cursor, 0 < c.column → c.rest = d :: more ++ (singleBody n false rest ++ '\'' :: tail) →
        Gap.read? 0 {} c = some (gap, c.after (d :: more)) ∧ (0 < (c.after (d :: more)).column ∨ rest = []) := by
  have hhead := head?_singleBody h.right.printable hsolid n tail
  rcases h.left.gap (fun d hd => Bool.or_eq_true_iff.1 (hg d hd)) with hspaces | hbreaks
  · obtain ⟨m, rfl⟩ := exists_eq_spaces hne hspaces
    have hbody : singleBody n false (spaces (m + 1) ++ rest) = spaces (m + 1) ++ singleBody n false rest := by
      rw [singleBody_append isBreak_of_mem_spaces, flatMap_spaces rfl]
    refine ⟨' ', spaces m, { blanks := spaces (m + 1) }, hbody, by decide, by decide, rfl, fun c hcolumn hrest => ?_⟩
    rw [← spaces_succ] at hrest ⊢
    rw [Cursor.column_after_of_not_isBreak isBreak_of_mem_spaces]
    exact ⟨Gap.read?_spaces hrest hhead 0, .inl (Nat.add_pos_left hcolumn _)⟩
  · obtain ⟨b, more, rfl⟩ := List.exists_cons_of_ne_nil hne
    have hb : b ≠ '\n' ∧ b ≠ '\'' := by
      refine ⟨fun heq => hnewline (by simp [heq]), ?_⟩
      rintro rfl
      exact absurd (hbreaks _ List.mem_cons_self) (by decide)
    obtain ⟨m, hm, hindented⟩ : ∃ m, (0 < m ∨ rest = []) ∧
        singleBody n true rest = spaces m ++ singleBody n false rest := by
      cases rest with
      | nil => exact ⟨0, .inr rfl, rfl⟩
      | cons d rest => exact ⟨n, .inl hn, singleBody_indented (Bool.or_eq_false_iff.1 (hsolid d rfl)).2 n rest⟩
    have hbody : singleBody n false (b :: more ++ rest) = b :: more ++ spaces m ++ singleBody n false rest := by
      rw [singleBody_of_isBreak hbreaks hne, hindented, List.append_assoc]
    have htext : Gap.text ⟨[], [b], more, true⟩ = b :: more := by simp [Gap.text, Gap.fold, hb.1]
    refine ⟨b, more ++ spaces m, _, hbody, by simp [blankAhead, breakAhead, hbreaks b], hb.2, htext, ?_⟩
    intro c _ hrest
    rw [← List.cons_append, List.append_assoc] at hrest
    rw [← List.cons_append, Cursor.column_after_breaks hbreaks hne]
    exact ⟨Gap.read?_breaks (fun d hd => ⟨hbreaks d hd, h.left.printable d hd⟩) hrest hhead 0, hm⟩

private theorem quotedWith_single (hn : 0 < n) (h : Single cs) (hnewline : '\n' ∉ cs) (hfuel : cs.length < fuel)
    (hplace : 0 < c.column ∨ cs = []) (hrest : c.rest = singleBody n false cs ++ '\'' :: tail)
    (htail : tail.head? ≠ some '\'') (text : List Char) :
    quotedWith '\'' fuel text c =
      some (String.ofList (text ++ cs), c.after (singleBody n false cs ++ ['\''])) := by
  have hunits {w : List Char} (hprintable : ∀ d ∈ w, isPrintable d = true)
      (hw : ∀ d ∈ w, (isSpace d || isBreak d) = false) : ∀ d ∈ w, StandsFor '\'' (singleUnit d) d := fun d hd =>
    let ⟨hspace, hbreak⟩ := Bool.or_eq_false_iff.1 (hw d hd)
    standsFor_singleUnit (hprintable d hd) hspace hbreak
  have hlines {w : List Char} (hw : ∀ d ∈ w, (isSpace d || isBreak d) = false) : ∀ d ∈ w, isBreak d = false :=
    fun d hd => (Bool.or_eq_false_iff.1 (hw d hd)).2
  induction cs using gaps_induct (p := fun d => isSpace d || isBreak d) generalizing fuel text c with
  | word w hw =>
    obtain ⟨fuel, rfl⟩ := Nat.exists_eq_succ_of_ne_zero (Nat.ne_zero_of_lt hfuel)
    have hbody : singleBody n false w = w.flatMap singleUnit := by
      have happend := singleBody_append (hlines hw) n []
      rwa [List.append_nil, singleBody, List.append_nil] at happend
    have hedge : c.atDocumentEdge = false := by
      rcases hplace with hcolumn | rfl
      · exact Cursor.atDocumentEdge_of_column hcolumn
      · exact Cursor.atDocumentEdge_of_rest hrest (by decide) (by decide)
    rw [hbody] at hrest ⊢
    exact quotedWith_end hedge (hunits h.printable hw) (by decide) hrest (.inr ⟨rfl, fun _ => htail⟩) fuel text
  | gap w g rest hw hne hg hsolid ih =>
    obtain ⟨fuel, rfl⟩ := Nat.exists_eq_succ_of_ne_zero (Nat.ne_zero_of_lt hfuel)
    have hcolumn : 0 < c.column := hplace.resolve_right (by simp [hne])
    have hnewline' : '\n' ∉ g ∧ '\n' ∉ rest := by
      simpa using fun hmem => hnewline (List.mem_append_right w hmem)
    obtain ⟨d, more, gap, hbody, hblank, hquote, htext, hread⟩ :=
      exists_gap_singleBody hn h.right hnewline'.1 hne hg hsolid tail
    rw [singleBody_append (hlines hw), hbody] at hrest ⊢
    rw [List.append_assoc, List.append_assoc] at hrest
    have hword := Cursor.rest_after hrest
    have hcolumn' : 0 < (c.after (w.flatMap singleUnit)).column := by
      rw [Cursor.column_after_of_not_isBreak (isBreak_of_mem_flatMap (hunits h.left.printable hw))]
      exact Nat.add_pos_left hcolumn _
    obtain ⟨hgap, hplace'⟩ := hread _ hcolumn' hword
    have hfuel' : rest.length < fuel := by
      have := List.length_pos_iff.2 hne
      simp only [List.length_append] at hfuel
      omega
    rw [quotedWith_gap (Cursor.atDocumentEdge_of_column hcolumn) (hunits h.left.printable hw) hrest hblank hquote hgap,
      ih h.right.right hnewline'.2 hfuel' hplace' (Cursor.rest_after hword), htext]
    simp only [Cursor.after_append, List.append_assoc]

private theorem length_le_singleBody (n : Nat) (atBreak : Bool) (cs : List Char) :
    cs.length ≤ (singleBody n atBreak cs).length := by
  induction cs generalizing atBreak with
  | nil => exact Nat.le_refl _
  | cons d rest ih =>
    rw [singleBody]
    split
    · exact Nat.succ_le_succ (ih true)
    · have := ih false
      split <;> split <;> simp <;> omega

theorem quoted?_single (hn : 0 < n) (h : allowsSingle cs = true) (hnewline : '\n' ∉ cs) (hcolumn : 0 < c.column)
    (hrest : c.rest = singleBody n false cs ++ '\'' :: tail) (htail : tail.head? ≠ some '\'') :
    quoted? '\'' c = some (String.ofList cs, c.after (singleBody n false cs ++ ['\''])) := by
  have hlength := length_le_singleBody n false cs
  rw [quoted?, quotedWith_single hn (.of_allowsSingle h) hnewline ?_ (.inl hcolumn) hrest htail, List.nil_append]
  rw [hrest, List.length_append, List.length_cons]
  omega

end FieldRules.Yaml
