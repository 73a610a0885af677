import FieldRules.Proofs.Log.Assignment

/-!
# What redaction hides

Redaction cuts a text into pieces, of which it keeps single characters and shows a secret word in place of each
assignment that it finds. The key facts: `redactFrom_eq` (the shown pieces are the redacted text),
`Assignment.FoundIn.overlap_cases` (how far what was found goes into an assignment that begins within it) and
`redact_hides_iff` (which secrets are hidden).
-/

namespace FieldRules.Redaction

/-! ### Pieces -/

/-- A piece of a text: a character that is kept, or a source in place of which a word is shown. -/
inductive Piece where
  | kept (c : Char)
  | hidden (word source : List Char)
  deriving DecidableEq

def Piece.source : Piece → List Char
  | kept c => [c]
  | hidden _ source => source

def Piece.shown : Piece → List Char
  | kept c => [c]
  | hidden word _ => word ++ "=***".toList

/-- The pieces of a text after passing over some characters. -/
def piecesFrom (skip : Nat) : List Char → List Piece
  | [] => []
  | c :: cs =>
    match skip with
    | skip + 1 => piecesFrom skip cs
    | 0 =>
      match secretAt? (c :: cs) with
      | some (word, rest) =>
        .hidden word ((c :: cs).take (cs.length + 1 - rest.length)) :: piecesFrom (cs.length - rest.length) cs
      | none => .kept c :: piecesFrom 0 cs

def pieces (cs : List Char) : List Piece := piecesFrom 0 cs

/-- The shown pieces are the redacted text. -/
theorem redactFrom_eq (skip : Nat) (cs : List Char) : redactFrom skip cs = (piecesFrom skip cs).flatMap Piece.shown := by
  induction cs generalizing skip with
  | nil => rfl
  | cons c cs ih =>
    cases skip with
    | succ skip => exact ih skip
    | zero =>
      cases h : secretAt? (c :: cs) with
      | none => simp only [redactFrom, piecesFrom, h, ih, List.flatMap_cons, Piece.shown, List.singleton_append]
      | some found => simp only [redactFrom, piecesFrom, h, ih, List.flatMap_cons, Piece.shown]

private theorem piecesFrom_eq (skip : Nat) (cs : List Char) : piecesFrom skip cs = pieces (cs.drop skip) := by
  induction cs generalizing skip with
  | nil => simp [pieces, piecesFrom]
  | cons c cs ih =>
    cases skip with
    | succ skip => exact ih skip
    | zero => rfl

private theorem pieces_cons_of_none {c : Char} {cs : List Char} (h : secretAt? (c :: cs) = none) :
    pieces (c :: cs) = .kept c :: pieces cs := by
  simp only [pieces, piecesFrom, h]

private theorem pieces_append_of_some {word source rest : List Char}
    (h : secretAt? (source ++ rest) = some (word, rest)) :
    pieces (source ++ rest) = .hidden word source :: pieces rest := by
  obtain ⟨a, closing, -, hfound⟩ := secretAt?_eq_some h
  obtain ⟨c, key, hkey, -⟩ := a.exists_key_eq_cons
  obtain rfl : source = a.text ++ closing := List.append_cancel_right hfound.text_eq
  obtain ⟨source, hsource⟩ : ∃ source, a.text ++ closing = c :: source := by
    simp [Assignment.text, Assignment.lead, hkey]
  rw [hsource, List.cons_append] at h ⊢
  have htake : (c :: (source ++ rest)).take ((source ++ rest).length + 1 - rest.length) = c :: source := by
    rw [List.length_append, Nat.add_right_comm, Nat.add_sub_cancel, List.take_succ_cons, List.take_left]
  have hdrop : (source ++ rest).drop ((source ++ rest).length - rest.length) = rest := by
    rw [List.length_append, Nat.add_sub_cancel, List.drop_left]
  simp only [pieces, piecesFrom, h, htake]
  rw [piecesFrom_eq, hdrop, pieces]

/-- What holds of the empty text, and of a text once it holds of what follows its first piece, holds of all texts. -/
private theorem pieces_induct {motive : List Char → Prop} (nil : motive [])
    (kept : ∀ c cs, secretAt? (c :: cs) = none → motive cs → motive (c :: cs))
    (hidden : ∀ (a : Assignment) closing rest, a.FoundIn closing (a.text ++ closing ++ rest) rest →
      pieces (a.text ++ closing ++ rest) = .hidden a.key (a.text ++ closing) :: pieces rest → motive rest →
      motive (a.text ++ closing ++ rest)) (cs : List Char) : motive cs := by
  induction hn : cs.length using Nat.strong_induction_on generalizing cs with
  | _ n ih =>
    subst hn
    cases cs with
    | nil => exact nil
    | cons c cs =>
      cases hfind : secretAt? (c :: cs) with
      | none => exact kept c cs hfind (ih cs.length (by simp) cs rfl)
      | some found =>
        obtain ⟨word, rest⟩ := found
        obtain ⟨a, closing, rfl, hfound⟩ := secretAt?_eq_some hfind
        have htext := hfound.text_eq
        have hlt : rest.length < (c :: cs).length := by
          have hsecret := a.length_secret
          rw [htext, List.length_append, List.length_append, a.length_text]
          omega
        rw [htext] at hfind hfound ⊢
        exact hidden a closing rest hfound (pieces_append_of_some hfind) (ih rest.length hlt rest rfl)

/-- The pieces make up the text. -/
private theorem flatMap_source_pieces (cs : List Char) : (pieces cs).flatMap Piece.source = cs := by
  induction cs using pieces_induct with
  | nil => rfl
  | kept c cs hnone ih => rw [pieces_cons_of_none hnone, List.flatMap_cons, ih, Piece.source, List.singleton_append]
  | hidden a closing rest _ hpieces ih => rw [hpieces, List.flatMap_cons, ih, Piece.source]

/-- What is hidden is an assignment, with the quote that closes it. -/
private theorem exists_assignment_of_mem_pieces {cs word source : List Char} (h : .hidden word source ∈ pieces cs) :
    ∃ (a : Assignment) (closing : List Char),
      word = a.key ∧ source = a.text ++ closing ∧ closing.length ≤ 1 ∧ ∀ c ∈ closing, isQuote c := by
  induction cs using pieces_induct with
  | nil => cases h
  | kept c cs hnone ih =>
    rw [pieces_cons_of_none hnone] at h
    rcases List.mem_cons.1 h with h | h
    · cases h
    · exact ih h
  | hidden a closing rest hfound hpieces ih =>
    rw [hpieces] at h
    rcases List.mem_cons.1 h with h | h
    · obtain ⟨rfl, rfl⟩ := Piece.hidden.inj h
      exact ⟨a, closing, rfl, rfl, hfound.length_closing, hfound.isQuote_of_mem_closing⟩
    · exact ih h

/-- Separators and quotes that nothing was found before are kept. -/
private theorem pieces_append_of_separators {between : List Char} (h : ∀ c ∈ between, isSeparator c ∨ isQuote c)
    (cs : List Char) : pieces (between ++ cs) = between.map .kept ++ pieces cs := by
  induction between with
  | nil => rfl
  | cons c between ih =>
    obtain ⟨hc, hbetween⟩ := List.forall_mem_cons.1 h
    have hnone : secretAt? (c :: (between ++ cs)) = none := by
      rw [← Option.not_isSome_iff_eq_none, secretAt?_isSome_iff]
      rintro ⟨a, ha⟩
      obtain ⟨d, key, hkey, hd⟩ := a.exists_key_eq_cons
      rw [Assignment.text, Assignment.lead, hkey] at ha
      obtain rfl : d = c := (List.cons_prefix_cons.1 ha).1
      exact hc.elim hd.1 hd.2
    rw [List.cons_append, pieces_cons_of_none hnone, ih hbetween, List.map_cons, List.cons_append]

/-! ### Overlapping assignments -/

section Append

variable {α : Type} {p : α → Bool} {x y u v s : List α} {c : α}

/-- A stretch that a character follows which is not in it has ended before that character. -/
private theorem exists_of_not_mem (h : x ++ c :: u = y ++ v) (hc : c ∉ y) : ∃ m, x = y ++ m ∧ v = m ++ c :: u := by
  rcases List.append_eq_append_iff.1 h with ⟨m, rfl, hu⟩ | ⟨m, hx, hv⟩
  · cases m with
    | nil => exact ⟨[], by simp, by simpa using hu.symm⟩
    | cons d m =>
      obtain rfl : c = d := (List.cons.inj hu).1
      exact absurd (by simp) hc
  · exact ⟨m, hx, hv⟩

/-- A stretch does not end inside another one when what follows it is not of the other's kind. -/
private theorem length_le_of_stops (h : x ++ u = y ++ (s ++ v)) (hs : ∀ c ∈ s, p c) (hstop : ∀ c ∈ u.head?, ¬ p c)
    (hle : y.length ≤ x.length) : y.length + s.length ≤ x.length := by
  obtain ⟨x, rfl⟩ : ∃ z, x = y ++ z := by
    rcases List.append_eq_append_iff.1 h with ⟨m, rfl, -⟩ | ⟨m, rfl, -⟩
    · rw [List.length_append] at hle
      obtain rfl : m = [] := List.eq_nil_of_length_eq_zero (by omega)
      exact ⟨[], by simp⟩
    · exact ⟨m, rfl⟩
  rw [List.append_assoc, List.append_cancel_left_eq] at h
  rw [List.length_append]
  rcases List.append_eq_append_iff.1 h with ⟨m, rfl, rfl⟩ | ⟨m, rfl, -⟩
  · cases m with
    | nil => simp
    | cons c m => exact absurd (hs c (by simp)) (hstop c rfl)
  · rw [List.length_append]
    omega

/-- A stretch ends inside another one in which not everything is of its kind. -/
private theorem length_lt_of_not_all (h : x ++ u = y ++ v) (hx : ∀ c ∈ x, p c) (hy : ¬ ∀ c ∈ y, p c) :
    x.length < y.length := by
  by_contra hle
  have hbegins : y <+: x := List.prefix_of_prefix_length_le ⟨v, rfl⟩ ⟨u, h⟩ (by omega)
  exact hy fun c hc => hx c (hbegins.subset hc)

end Append

namespace Assignment

variable {a b : Assignment} {closing cs rest before after : List Char}

/-- What is found goes on to the end of the secret of any assignment that stands there. -/
private theorem FoundIn.length_text_le (h : b.FoundIn closing cs rest) (hcs : cs = a.text ++ after) :
    a.text.length ≤ b.text.length := by
  have hgreedy := h.greedy a ⟨after, hcs.symm⟩
  have hkey : a.key = b.key := by
    have ha : a.key <+: cs := ⟨a.separators ++ a.quote ++ a.secret ++ after, by simp [hcs, text, lead]⟩
    have hb : b.key <+: cs := ⟨b.separators ++ b.quote ++ b.secret ++ closing ++ rest, by simp [h.text_eq, text, lead]⟩
    exact eq_of_prefix_of_spelled a.spelled b.spelled ha hb
  have hlead : a.lead.length ≤ b.text.length := by
    have hquote := a.length_quote
    have hsecret := b.length_secret
    rw [length_text, length_lead, length_lead, hkey]
    omega
  have hsplit : b.text ++ (closing ++ rest) = a.lead ++ (a.secret ++ after) := by
    rw [← List.append_assoc, ← h.text_eq, hcs, text, List.append_assoc]
  rw [length_text]
  exact length_le_of_stops hsplit a.isValueChar_of_mem h.stops hlead

/-- An assignment that begins within what was found begins within its secret. -/
private theorem FoundIn.overlap (h : b.FoundIn closing cs rest) (hcs : cs = before ++ (a.text ++ after))
    (hbefore : before ≠ []) (hlt : before.length < (b.text ++ closing).length) :
    ∃ m t, before = b.lead ++ m ∧ b.secret = m ++ t ∧ t ++ (closing ++ rest) = a.text ++ after := by
  obtain ⟨c, key, hkey, hc⟩ := a.exists_key_eq_cons
  obtain ⟨more, hmore⟩ : ∃ more, a.text ++ after = c :: more := by simp [text, lead, hkey]
  have hsplit : before ++ (a.text ++ after) =
      b.key ++ ((b.separators ++ b.quote) ++ (b.secret ++ (closing ++ rest))) := by
    rw [← hcs, h.text_eq, text, lead]
    simp
  -- it does not begin within the word
  obtain ⟨m, rfl, hm⟩ : ∃ m, before = b.key ++ m ∧
      (b.separators ++ b.quote) ++ (b.secret ++ (closing ++ rest)) = m ++ (a.text ++ after) := by
    rcases List.append_eq_append_iff.1 hsplit with ⟨m, hword, hm⟩ | ⟨m, hbefore, hm⟩
    · obtain ⟨d, separators, hseparators⟩ := List.exists_cons_of_ne_nil b.separators_ne_nil
      have hd : isSeparator d := b.isSeparator_of_mem d (hseparators ▸ List.mem_cons_self)
      have hnot : d ∉ a.key := fun hmem => (a.not_isSeparator_of_mem_key hmem).1 hd
      rw [hseparators, text, lead] at hm
      simp only [List.append_assoc, List.cons_append] at hm
      obtain ⟨m', rfl, -⟩ := exists_of_not_mem hm.symm hnot
      exact absurd (hword.trans (List.append_assoc ..).symm) (ne_append_of_spelled b.spelled a.spelled hbefore)
    · exact ⟨m, hbefore, hm⟩
  -- nor within the separators and the quote
  rw [hmore] at hm
  have hnot : c ∉ b.separators ++ b.quote := fun hmem => (b.isSeparator_or_isQuote hmem).elim hc.1 hc.2
  obtain ⟨m, rfl, hvalue⟩ := exists_of_not_mem hm.symm hnot
  have hlead : b.key ++ ((b.separators ++ b.quote) ++ m) = b.lead ++ m := by simp [lead]
  rw [hlead] at hlt ⊢
  rcases List.append_eq_append_iff.1 hvalue with ⟨m', rfl, hclosing⟩ | ⟨t, hsecret, ht⟩
  · -- nor at the quote that closes the secret
    have hnot : c ∉ closing := fun hmem => hc.2 (h.isQuote_of_mem_closing c hmem)
    obtain ⟨m'', rfl, -⟩ := exists_of_not_mem hclosing.symm hnot
    simp only [text, List.length_append] at hlt
    omega
  · exact ⟨m, t, rfl, hsecret, by rw [hmore, ht]⟩

/-- When an assignment begins within what was found, that goes on to the end of its secret or stops between its key and
its secret. -/
theorem FoundIn.overlap_cases (h : b.FoundIn closing cs rest) (hcs : cs = before ++ (a.text ++ after))
    (hbefore : before ≠ []) (hlt : before.length < (b.text ++ closing).length) :
    before.length + a.text.length ≤ (b.text ++ closing).length ∨
      ∃ between, (∀ c ∈ between, isSeparator c ∨ isQuote c) ∧ rest = between ++ (a.secret ++ after) ∧
        (b.text ++ closing).length + between.length = before.length + a.lead.length := by
  obtain ⟨m, t, rfl, hsecret, ht⟩ := h.overlap hcs hbefore hlt
  have hvalue : ∀ c ∈ t, isValueChar c := fun c hc => b.isValueChar_of_mem c (by simp [hsecret, hc])
  have hlength : (b.text ++ closing).length = (b.lead ++ m).length + t.length + closing.length := by
    simp only [text, hsecret, List.length_append]
    omega
  by_cases hlead : ∀ c ∈ a.lead, isValueChar c
  · left
    have hall : ∀ c ∈ a.text, isValueChar c := by
      intro c hc
      rcases List.mem_append.1 hc with hc | hc
      · exact hlead c hc
      · exact a.isValueChar_of_mem c hc
    have hle := length_le_of_stops (y := []) ht hall h.stops (Nat.zero_le _)
    simp only [List.length_nil, Nat.zero_add] at hle
    omega
  · right
    have hkey : ∀ c ∈ a.key, isValueChar c :=
      fun c hc => isValueChar_of_not_isSeparator (a.not_isSeparator_of_mem_key hc)
    have hsplit : t ++ (closing ++ rest) = a.lead ++ (a.secret ++ after) := by
      rw [ht, text, List.append_assoc]
    have hstop := length_lt_of_not_all hsplit hvalue hlead
    have hstart : a.key.length ≤ t.length := by
      have hkeySplit : t ++ (closing ++ rest) = [] ++ (a.key ++ (a.separators ++ a.quote ++ (a.secret ++ after))) := by
        rw [hsplit, lead]
        simp
      simpa using length_le_of_stops hkeySplit hkey h.stops (Nat.zero_le _)
    have hclosing := h.length_closing
    rw [← List.append_assoc] at hsplit
    obtain ⟨between, hbetween⟩ : t ++ closing <+: a.lead :=
      List.prefix_of_prefix_length_le ⟨rest, hsplit⟩ (List.prefix_append ..) (by rw [List.length_append]; omega)
    have hsuffix : between <:+ a.separators ++ a.quote := by
      have hlast : a.separators ++ a.quote <:+ a.lead := List.suffix_append ..
      refine List.suffix_of_suffix_length_le ⟨_, hbetween⟩ hlast ?_
      have hsum := congrArg List.length hbetween
      rw [lead, List.length_append, List.length_append, List.length_append] at hsum
      omega
    refine ⟨between, fun c hc => a.isSeparator_or_isQuote (hsuffix.subset hc), ?_, ?_⟩
    · rw [← hbetween, List.append_assoc (t ++ closing)] at hsplit
      exact List.append_cancel_left hsplit
    · have hsum := congrArg List.length hbetween
      rw [List.length_append, List.length_append] at hsum
      omega

end Assignment

/-! ### What is hidden -/

/-- A stretch of a text. -/
structure Region where
  start : Nat
  stop : Nat
  deriving DecidableEq

/-- Where the hidden pieces stand. -/
def regionsFrom (offset : Nat) : List Piece → List Region
  | [] => []
  | .kept _ :: rest => regionsFrom (offset + 1) rest
  | .hidden _ source :: rest => ⟨offset, offset + source.length⟩ :: regionsFrom (offset + source.length) rest

/-- The regions of a text that redaction replaces. -/
def regions (text : String) : List Region := regionsFrom 0 (pieces text.toList)

/-- A stretch of the text lies in a region. -/
def IsHidden (regions : List Region) (start stop : Nat) : Prop := ∃ r ∈ regions, r.start ≤ start ∧ stop ≤ r.stop

/-- The place of a key is inside a region that ends before the secret. -/
def IsTaken (regions : List Region) (key secret : Nat) : Prop :=
  ∃ r ∈ regions, r.start < key ∧ key < r.stop ∧ r.stop ≤ secret

instance (regions : List Region) (start stop : Nat) : Decidable (IsHidden regions start stop) :=
  inferInstanceAs (Decidable (∃ r ∈ regions, _))

instance (regions : List Region) (key secret : Nat) : Decidable (IsTaken regions key secret) :=
  inferInstanceAs (Decidable (∃ r ∈ regions, _))

private theorem isHidden_cons {r : Region} {regions : List Region} {start stop : Nat} :
    IsHidden (r :: regions) start stop ↔ (r.start ≤ start ∧ stop ≤ r.stop) ∨ IsHidden regions start stop :=
  List.exists_mem_cons_iff ..

private theorem isTaken_cons {r : Region} {regions : List Region} {key secret : Nat} :
    IsTaken (r :: regions) key secret ↔ (r.start < key ∧ key < r.stop ∧ r.stop ≤ secret) ∨ IsTaken regions key secret :=
  List.exists_mem_cons_iff ..

private theorem le_start_of_mem_regionsFrom {offset : Nat} {ps : List Piece} {r : Region}
    (h : r ∈ regionsFrom offset ps) :
    offset ≤ r.start := by
  induction ps generalizing offset with
  | nil => cases h
  | cons p rest ih =>
    cases p with
    | kept c => exact Nat.le_of_succ_le (ih h)
    | hidden word source =>
      rcases List.mem_cons.1 h with rfl | h
      · exact le_rfl
      · exact le_trans (Nat.le_add_right ..) (ih h)

private theorem regionsFrom_map_kept_append (offset : Nat) (cs : List Char) (ps : List Piece) :
    regionsFrom offset (cs.map .kept ++ ps) = regionsFrom (offset + cs.length) ps := by
  induction cs generalizing offset with
  | nil => rfl
  | cons c cs ih =>
    rw [List.map_cons, List.cons_append, regionsFrom, ih, List.length_cons, Nat.add_assoc, Nat.add_comm 1]

private theorem not_isTaken_of_le {offset key secret : Nat} {ps : List Piece} (h : key ≤ offset) :
    ¬ IsTaken (regionsFrom offset ps) key secret := by
  rintro ⟨r, hr, hstart, -⟩
  have hle := le_start_of_mem_regionsFrom hr
  omega

/-- A run of value characters at the start of a text is hidden exactly when an assignment begins there. -/
private theorem isHidden_run_iff {offset : Nat} {run after : List Char} (hrun : ∀ c ∈ run, isValueChar c)
    (hne : run ≠ []) :
    IsHidden (regionsFrom offset (pieces (run ++ after))) offset (offset + run.length) ↔
      ∃ a : Assignment, a.text <+: run ++ after := by
  rw [← secretAt?_isSome_iff]
  cases hfind : secretAt? (run ++ after) with
  | none =>
    obtain ⟨c, run, rfl⟩ := List.exists_cons_of_ne_nil hne
    rw [List.cons_append] at hfind ⊢
    rw [pieces_cons_of_none hfind, regionsFrom]
    refine iff_of_false ?_ (by decide)
    rintro ⟨r, hr, hstart, -⟩
    have hle := le_start_of_mem_regionsFrom hr
    omega
  | some found =>
    obtain ⟨word, rest⟩ := found
    obtain ⟨a, closing, -, hfound⟩ := secretAt?_eq_some hfind
    have hsplit : a.text ++ (closing ++ rest) = [] ++ (run ++ after) := by
      rw [List.nil_append, hfound.text_eq, List.append_assoc]
    have hle := length_le_of_stops hsplit hrun hfound.stops (Nat.zero_le _)
    rw [hfound.text_eq] at hfind ⊢
    rw [pieces_append_of_some hfind, regionsFrom, isHidden_cons]
    refine iff_of_true (.inl ⟨le_rfl, ?_⟩) rfl
    simp only [List.length_append, List.length_nil] at hle ⊢
    omega

/-- The secret of an assignment is hidden, unless its key was taken for the end of another secret and no assignment
begins where its own secret does. -/
private theorem isHidden_secret_iff {cs before after : List Char} {a : Assignment} (offset : Nat)
    (hcs : cs = before ++ (a.text ++ after)) :
    IsHidden (regionsFrom offset (pieces cs)) (offset + before.length + a.lead.length)
        (offset + before.length + a.text.length) ↔
      ¬ (IsTaken (regionsFrom offset (pieces cs)) (offset + before.length) (offset + before.length + a.lead.length) ∧
          ¬ ∃ b : Assignment, b.text <+: a.secret ++ after) := by
  have hsecret := a.length_secret
  have hlength := a.length_text
  induction cs using pieces_induct generalizing offset before with
  | nil =>
    have hsum := congrArg List.length hcs
    rw [List.length_append, List.length_append, List.length_nil] at hsum
    omega
  | kept c cs hnone ih =>
    rw [pieces_cons_of_none hnone, regionsFrom]
    cases before with
    | nil =>
      have hfound : (secretAt? (c :: cs)).isSome := secretAt?_isSome (a := a) ⟨after, hcs.symm⟩
      rw [hnone] at hfound
      cases hfound
    | cons d before =>
      have hoffset : offset + (d :: before).length = offset + 1 + before.length := by
        rw [List.length_cons, Nat.add_right_comm, Nat.add_assoc]
      rw [hoffset]
      exact ih (offset + 1) (List.cons.inj hcs).2
  | hidden b closing rest hfound hpieces ih =>
    rw [hpieces, regionsFrom, isHidden_cons, isTaken_cons]
    dsimp only
    rcases Nat.lt_or_ge before.length (b.text ++ closing).length with hlt | hge
    · have hlater : ¬ IsTaken (regionsFrom (offset + (b.text ++ closing).length) (pieces rest)) (offset + before.length)
          (offset + before.length + a.lead.length) := not_isTaken_of_le (Nat.add_le_add_left (Nat.le_of_lt hlt) offset)
      rw [or_iff_left hlater]
      by_cases hend : before.length + a.text.length ≤ (b.text ++ closing).length
      · exact iff_of_true (.inl (by omega)) (by omega)
      -- what was found stops before the end of the secret, so it began before the assignment
      have hbefore : before ≠ [] := by
        rintro rfl
        have hle := hfound.length_text_le hcs
        rw [List.length_nil, List.length_append] at hend
        omega
      rcases hfound.overlap_cases hcs hbefore hlt with hend' | ⟨between, hbetween, hrest, hsum⟩
      · exact absurd hend' hend
      · have hpos := List.length_pos_iff.2 hbefore
        have hne : a.secret ≠ [] := List.ne_nil_of_length_pos (by omega)
        have hoffset : offset + (b.text ++ closing).length + between.length =
            offset + before.length + a.lead.length := by omega
        rw [or_iff_right (by omega), and_iff_right (by omega), not_not, hrest, pieces_append_of_separators hbetween,
          regionsFrom_map_kept_append, hoffset, hlength, ← Nat.add_assoc]
        exact isHidden_run_iff a.isValueChar_of_mem hne
    · obtain ⟨before, rfl⟩ : ∃ m, before = b.text ++ closing ++ m := by
        obtain ⟨m, hm⟩ := List.prefix_of_prefix_length_le ⟨rest, rfl⟩ ⟨a.text ++ after, hcs.symm⟩ hge
        exact ⟨m, hm.symm⟩
      rw [List.append_assoc (b.text ++ closing) before, List.append_cancel_left_eq] at hcs
      have hoffset : offset + (b.text ++ closing ++ before).length =
          offset + (b.text ++ closing).length + before.length := by
        simp only [List.length_append]
        omega
      rw [hoffset, or_iff_right (by omega), or_iff_right (by omega)]
      exact ih _ hcs

/-- Redaction replaces assignments of secrets by `key=***` and keeps the rest of a text. The secret of an assignment that
stands anywhere in the text is hidden, unless the place of its key is inside a replaced assignment that ends before the
secret, and no assignment begins where the secret does. -/
theorem redact_hides_iff (text : String) :
    ((pieces text.toList).flatMap Piece.source = text.toList ∧
      (redact text).toList = (pieces text.toList).flatMap Piece.shown ∧
      ∀ word source, .hidden word source ∈ pieces text.toList → ∃ (a : Assignment) (closing : List Char),
        word = a.key ∧ source = a.text ++ closing ∧ closing.length ≤ 1 ∧ ∀ c ∈ closing, isQuote c) ∧
    ∀ before (a : Assignment) after, text.toList = before ++ (a.text ++ after) →
      (IsHidden (regions text) (before.length + a.lead.length) (before.length + a.text.length) ↔
        ¬ (IsTaken (regions text) before.length (before.length + a.lead.length) ∧
            ¬ ∃ b : Assignment, b.text <+: a.secret ++ after)) := by
  refine ⟨⟨flatMap_source_pieces _, ?_, fun word source => exists_assignment_of_mem_pieces⟩, ?_⟩
  · rw [redact, String.toList_ofList, redactFrom_eq, pieces]
  · intro before a after htext
    have hiff := isHidden_secret_iff 0 htext
    rwa [Nat.zero_add] at hiff

theorem redact_hides_password :
    let a : Assignment := ⟨"PassWord".toList, ": ".toList, ['"'], "hunter22".toList, by decide, by decide,
      List.all_eq_true.1 (by decide), by decide, List.all_eq_true.1 (by decide), by decide,
      List.all_eq_true.1 (by decide)⟩
    "my PassWord: \"hunter22\"!".toList = "my ".toList ++ (a.text ++ "\"!".toList) ∧
      redact "my PassWord: \"hunter22\"!" = "my PassWord=***!" ∧
      IsHidden (regions "my PassWord: \"hunter22\"!") 14 22 := by
  intro a
  have htext : "my PassWord: \"hunter22\"!".toList = "my ".toList ++ (a.text ++ "\"!".toList) := by decide
  obtain ⟨-, hhides⟩ := redact_hides_iff "my PassWord: \"hunter22\"!"
  exact ⟨htext, by decide, (hhides "my ".toList a "\"!".toList htext).2 fun h => absurd h.1 (by decide)⟩

theorem not_redact_hides_token :
    redact "bearer token hunter22" = "bearer=*** hunter22" ∧
      ¬ ∀ text before (a : Assignment) after, text.toList = before ++ (a.text ++ after) →
        (∀ c ∈ after.head?, ¬ isValueChar c) →
          IsHidden (regions text) (before.length + a.lead.length) (before.length + a.text.length) := by
  refine ⟨by decide, fun h => ?_⟩
  let a : Assignment := ⟨"token".toList, " ".toList, [], "hunter22".toList, by decide, by decide,
    List.all_eq_true.1 (by decide), by decide, List.all_eq_true.1 (by decide), by decide, List.all_eq_true.1 (by decide)⟩
  have hhidden := h "bearer token hunter22" "bearer ".toList a [] (by decide) (by simp)
  exact absurd hhidden (by decide)

end FieldRules.Redaction
