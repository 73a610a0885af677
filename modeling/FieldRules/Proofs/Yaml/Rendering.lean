import FieldRules.Proofs.Yaml.Scalar

/-!
# The tokens of written data

Maps of texts and truth values, written as YAML, are read as the tokens of these maps. The key facts: `entry_read` (an
entry is read up to the next line), `entries_read`, and from them `tokens?_render`.
-/

namespace FieldRules

open Data (Value)

/-- Data made of texts and truth values, in maps that are nested up to a depth. -/
inductive Data.Value.Textual : Nat → Value → Prop
  | bool {depth : Nat} (b : Bool) : Textual depth (.bool b)
  | string {depth : Nat} (s : String) : Textual depth (.string s)
  | map {depth : Nat} {members : List (String × Value)} :
      (∀ m ∈ members, Textual depth m.2) → Textual (depth + 1) (.map members)

namespace Yaml

/-! ### Tokens -/

mutual

/-- The tokens of data; lists, numbers and nothing are left out. -/
def valueTokens : Value → List Token
  | .bool b => [.scalar true (if b then "true" else "false")]
  | .string s => [textToken s]
  | .map es => if es.isEmpty then [.mapStart, .mapEnd] else .blockMapStart :: (entryTokens es ++ [.blockEnd])
  | _ => []

def entryTokens : List (String × Value) → List Token
  | [] => []
  | (k, v) :: rest => .key :: textToken k :: .value :: (valueTokens v ++ entryTokens rest)

end

/-- The text of an entry of a map whose keys stand at the given column. -/
def entryText (n : Nat) (e : String × Value) : List Char :=
  if isSimpleKey e.1 then scalar true n e.1 ++ ':' :: afterKey n e.2
  else '?' :: ' ' :: (scalarLine (n + 2) e.1 ++ (spaces n ++ ':' :: ' ' :: block (n + 2) e.2))

private theorem entries_cons (n : Nat) (e : String × Value) (rest : List (String × Value)) :
    entries n (e :: rest) = spaces n ++ (entryText n e ++ entries n rest) := by
  rw [entries, entryText]
  split <;> simp

namespace Lexer

variable {l l' : Lexer} {c : Cursor} {ts : List Token} {p : Option KeyPlace} {indent column : Int} {outer : List Int}
  {allowed : Bool} {k m n : Nat} {R rest : List Char} {v : Value} {key : String}

private theorem solid_entryText (n : Nat) (e : String × Value) (rest : List Char) : Solid (entryText n e ++ rest) := by
  rw [entryText]
  split
  · rw [List.append_assoc]
    exact solid_scalar true n e.1 _
  · exact .cons (by decide) _

/-! ### Values -/

/-- A value behind a colon, in either form that an entry is written in. -/
structure ReadsValue (v : Value) : Prop where
  afterKey : ∀ {c : Cursor} {ts outer m n R}, c.rest = afterKey n v ++ (spaces m ++ R) → m ≤ n → n < c.column →
    Solid R → Reaches (state c ts none n outer false) m R n (ts ++ valueTokens v) n outer
  block : ∀ {c : Cursor} {ts outer m n R}, c.rest = ' ' :: (block (n + 2) v ++ (spaces m ++ R)) → m ≤ n →
    c.column = n + 1 → Solid R → Reaches (state c ts none n outer true) m R n (ts ++ valueTokens v) n outer

/-- A value without further structure is written in the same way in both forms. -/
private theorem ReadsValue.of_leaf (hafter : ∀ n, Yaml.afterKey n v = ' ' :: leaf (n + 2) v)
    (hblock : ∀ n, Yaml.block n v = leaf n v)
    (h : ∀ {c : Cursor} {ts outer m n R allowed}, c.rest = ' ' :: (leaf (n + 2) v ++ (spaces m ++ R)) → m ≤ n →
      n < c.column → Solid R → Reaches (state c ts none n outer allowed) m R n (ts ++ valueTokens v) n outer) :
    ReadsValue v where
  afterKey hrest hm hcolumn hR := h (by rw [hrest, hafter, List.cons_append]) hm hcolumn hR
  block hrest hm hcolumn hR := h (by rw [hrest, hblock]) hm (by omega) hR

/-- A value that is read as one token. -/
private theorem ReadsValue.of_token (hafter : ∀ n, Yaml.afterKey n v = ' ' :: leaf (n + 2) v)
    (hblock : ∀ n, Yaml.block n v = leaf n v) (hsolid : ∀ n rest, Solid (leaf n v ++ rest)) (hne : ∀ n, leaf n v ≠ [])
    (h : ∀ {c : Cursor} {ts outer m n R allowed}, c.rest = leaf (n + 2) v ++ (spaces m ++ R) → m ≤ n →
      n < c.column → Solid R → LeadsTo (state c ts none n outer allowed) m R n (ts ++ valueTokens v) n outer) :
    ReadsValue v := by
  refine .of_leaf hafter hblock fun {c ts outer m n R allowed} hrest hm hcolumn hR => ?_
  have hnext : (c.after (spaces 1)).rest = leaf (n + 2) v ++ (spaces m ++ R) := Cursor.rest_after hrest
  have hcolumn' : n < (c.after (spaces 1)).column := by
    rw [Cursor.column_after_of_not_isBreak isBreak_of_mem_spaces]
    omega
  obtain ⟨l', htoken, hlength, hawaits⟩ := h hnext hm hcolumn' hR
  refine .of_steps (steps_state hrest (hsolid _ _) ?_ (dropStale?_none ..) (by omega) htoken ?_) hawaits.reaches
  · exact List.append_ne_nil_of_left_ne_nil (hne _) _
  · replace hlength : l'.cursor.rest.length < (c.after (spaces 1)).rest.length := hlength
    rw [hnext] at hlength
    rw [hrest, List.length_cons]
    omega

private theorem readsValue_string (s : String) : ReadsValue (.string s) := by
  refine .of_token (fun n => rfl) (fun n => rfl) (fun n rest => ?_) (fun n => ?_) fun hrest hm hcolumn hR => ?_
  · exact solid_scalarLine n s rest
  · exact scalarLine_ne_nil n s
  · exact leadsTo_scalarLine hm hcolumn hR hrest

private theorem readsValue_bool (b : Bool) : ReadsValue (.bool b) := by
  have hleaf (n : Nat) : leaf n (.bool b) = (if b then "true" else "false").toList ++ ['\n'] := by cases b <;> rfl
  have hne : (if b then "true" else "false").toList ≠ [] := by cases b <;> decide
  have hallows : allowsPlain (if b then "true" else "false").toList = true := by cases b <;> decide
  refine .of_token (fun n => rfl) (fun n => rfl) (fun n rest => ?_) (fun n => ?_) fun hrest hm hcolumn hR => ?_
  · rw [hleaf, List.append_assoc]
    exact solid_of_allowsPlain hne hallows _
  · rw [hleaf]
    exact List.append_ne_nil_of_left_ne_nil hne _
  · rw [hleaf, List.append_assoc] at hrest
    exact leadsTo_plain hne hallows (Int.ofNat_le.2 hm) (Int.ofNat_lt.2 hcolumn) hR hrest

/-- A lexer inside of braces. -/
def inBraces (c : Cursor) (ts : List Token) (place : Option KeyPlace) (indent : Int) (outer : List Int) : Lexer :=
  ⟨c, ts.toArray, none, [place], indent, outer, true⟩

private theorem steps_openBrace (hrest : c.rest = ' ' :: '\x7b' :: rest) (hcolumn : indent ≤ c.column) :
    Steps (state c ts none indent outer allowed) (inBraces (c.after (spaces 1)).skip (ts ++ [.mapStart])
      (notedPlace (c.after (spaces 1)) ts indent allowed) indent outer) := by
  have hnext : (c.after (spaces 1)).rest = '\x7b' :: rest := Cursor.rest_after hrest
  refine steps_state (n := 1) hrest (.cons (by decide) _) (List.cons_ne_nil _ _) (dropStale?_none ..) hcolumn ?_ ?_
  · have htoken : (state (c.after (spaces 1)) ts none indent outer allowed).token? =
        (state (c.after (spaces 1)) ts none indent outer allowed).openBracket? .mapStart := by
      simp [token?, state, hnext, Cursor.atMarker]
    rw [htoken, openBracket?, noteKeyPlace?_state]
    simp [state, push, skip, inBraces]
  · show (c.after (spaces 1)).skip.rest.length < c.rest.length
    rw [Cursor.rest_skip hnext, hrest, List.length_cons, List.length_cons]
    omega

private theorem steps_closeBrace {place : Option KeyPlace} (hrest : c.rest = '\x7d' :: rest)
    (hfresh : freshen? c place = some place) :
    Steps (inBraces c ts place indent outer) (state c.skip (ts ++ [.mapEnd]) place indent outer false) := by
  have hspaces : (inBraces c ts place indent outer).skipToToken = inBraces c ts place indent outer :=
    skipToToken_spaces (n := 0) hrest (.cons (by decide) _)
  have hkept : (inBraces c ts place indent outer).dropStale? = some (inBraces c ts place indent outer) := by
    have hnone : freshen? c none = some none := rfl
    simp [dropStale?, inBraces, hfresh, hnone]
  refine Steps.token (by rw [hspaces, hkept]) ?_ ?_ ?_
  · exact hrest ▸ List.cons_ne_nil _ _
  · have hblocks (column : Int) :
        (inBraces c ts place indent outer).closeBlocks column = inBraces c ts place indent outer := rfl
    have htoken : (inBraces c ts place indent outer).token? =
        (inBraces c ts place indent outer).closeBracket? .mapEnd := by
      simp [token?, inBraces, hrest, Cursor.atMarker]
    rw [hblocks, htoken]
    simp [closeBracket?, dropKeyPlace?, push, skip, inBraces, state]
  · show c.skip.rest.length < c.rest.length
    rw [Cursor.rest_skip hrest, hrest]
    exact Nat.lt_succ_self _

/-- A map without entries is a pair of braces. -/
private theorem readsValue_empty : ReadsValue (.map []) := by
  refine .of_leaf (fun n => rfl) (fun n => rfl) fun {c ts outer m n R allowed} hrest hm hcolumn hR => ?_
  replace hrest : c.rest = ' ' :: '\x7b' :: '\x7d' :: '\n' :: (spaces m ++ R) := hrest
  rw [← List.singleton_append] at hrest
  have hopen := Cursor.rest_skip (Cursor.rest_after hrest)
  have hclose := Cursor.rest_skip hopen
  have hfresh : freshen? (c.after (spaces 1)).skip (notedPlace (c.after (spaces 1)) ts n allowed) =
      some (notedPlace (c.after (spaces 1)) ts n allowed) :=
    freshen?_notedPlace rfl (Nat.add_le_add_left (by decide) _)
  refine .of_steps ((steps_openBrace hrest (by omega)).trans (steps_closeBrace hopen hfresh)) ?_
  rw [List.append_assoc]
  have hcolumn' : (n : Int) < (c.after (spaces 1)).column := by
    rw [Cursor.column_after_of_not_isBreak isBreak_of_mem_spaces]
    omega
  exact (awaits_line hclose hR (Int.le_refl _) (passed_notedPlace hcolumn' (Nat.lt_succ_self _))).reaches

/-! ### Keys -/

/-- The token of a map that may open at a column. -/
def opening (indent : Int) (n : Nat) : List Token := if indent < n then [.blockMapStart] else []

/-- The blocks around the map at a column. -/
def around (indent : Int) (outer : List Int) (n : Nat) : List Int := if indent < n then indent :: outer else outer

private theorem insertAt_state (t : Token) (ts ts' : List Token) :
    (state c (ts ++ ts') p indent outer allowed).insertAt ts.length t =
      state c (ts ++ t :: ts') p indent outer allowed := by
  have hinsert : (ts ++ ts').insertIdx ts.length t = ts ++ t :: ts' := by
    induction ts with
    | nil => rfl
    | cons u ts ih => simp [ih]
  simp only [insertAt, state, List.insertIdxIfInBounds_toArray, hinsert]

private theorem openBlock_insert (h : indent ≤ n) (ts ts' : List Token) :
    (state c (ts ++ ts') p indent outer allowed).openBlock n (some ts.length) .blockMapStart =
      state c (ts ++ (opening indent n ++ ts')) p n (around indent outer n) allowed := by
  rcases Int.lt_or_eq_of_le h with hlt | rfl
  · have hinsert : (state c (ts ++ ts') p n (indent :: outer) allowed).insertAt ts.length .blockMapStart = _ :=
      insertAt_state .blockMapStart ts ts'
    simpa [openBlock, opening, around, hlt, state, inFlow, Int.not_le.2 hlt] using hinsert
  · simp [openBlock, opening, around, state, inFlow]

private theorem openBlock_push (h : indent ≤ n) (ts : List Token) :
    (state c ts p indent outer allowed).openBlock n none .blockMapStart =
      state c (ts ++ opening indent n) p n (around indent outer n) allowed := by
  rcases Int.lt_or_eq_of_le h with hlt | rfl
  · simp [openBlock, opening, around, hlt, state, inFlow, Int.not_le.2 hlt, push]
  · simp [openBlock, opening, around, state, inFlow]

/-- Behind a key that began at its place, a colon puts in what belongs before the key. -/
private theorem value?_place {t : Token} {index line : Nat} {required : Bool} (h : indent ≤ n) :
    (state c (ts ++ [t]) (some ⟨ts.length, index, line, n, required⟩) indent outer allowed).value? =
      some (state c.skip (ts ++ (opening indent n ++ [.key, t, .value])) none n (around indent outer n) false) := by
  have hplace : (state c (ts ++ [t]) (some ⟨ts.length, index, line, n, required⟩) indent outer allowed).keyPlace =
    some ⟨ts.length, index, line, n, required⟩ := rfl
  simp only [value?, hplace, insertAt_state, openBlock_insert h]
  simp [state, push, skip]

/-- A colon behind a key of any form is a token of its own. -/
private theorem value?_none (h : indent ≤ c.column) (ts : List Token) (outer : List Int) :
    (state c ts none indent outer true).value? = some (state c.skip (ts ++ (opening indent c.column ++ [.value])) none
      c.column (around indent outer c.column) true) := by
  have hplace : (state c ts none indent outer true).keyPlace = none := rfl
  have hcursor : (state c ts none indent outer true).cursor = c := rfl
  simp only [value?, hplace, hcursor, openBlock_push h]
  simp [state, push, skip, inFlow]

private theorem key?_state (h : indent ≤ c.column) (ts : List Token) (outer : List Int) :
    (state c ts none indent outer true).key? = some (state c.skip (ts ++ (opening indent c.column ++ [.key])) none
      c.column (around indent outer c.column) true) := by
  have hcursor : (state c ts none indent outer true).cursor = c := rfl
  simp only [key?, hcursor, openBlock_push h]
  simp [state, push, skip, inFlow, dropKeyPlace?]

/-! ### Entries -/

private theorem opening_self (n : Nat) : opening n n = [] := if_neg (Int.lt_irrefl _)

private theorem around_self (outer : List Int) (n : Nat) : around n outer n = outer := if_neg (Int.lt_irrefl _)

private theorem blankAhead_afterKey (n : Nat) (v : Value) (rest : List Char) :
    blankAhead (Yaml.afterKey n v ++ rest) = true := by
  unfold Yaml.afterKey
  split <;> (try split) <;> rfl

/-- An entry whose key stands before the colon is read up to the next line. -/
private theorem simpleEntry_read (hv : ReadsValue v) (hsimple : isSimpleKey key = true)
    (h : Awaits l n (scalar true n key ++ ':' :: (Yaml.afterKey n v ++ (spaces m ++ R))) n ts indent outer)
    (hindent : indent ≤ n) (hm : m ≤ n) (hR : Solid R) :
    Reaches l m R n (ts ++ (opening indent n ++ .key :: textToken key :: .value :: valueTokens v)) n
      (around indent outer n) := by
  obtain ⟨hlines, hlength⟩ := isSimpleKey_written hsimple n
  obtain ⟨c, hrest, hcolumn, hstep⟩ := h.step (by simp)
  have hrest₁ := Cursor.rest_after hrest
  have hplace : notedPlace c ts indent true = some ⟨ts.length, c.index, c.line, n, indent == (n : Int)⟩ := by
    rw [notedPlace, if_pos rfl, hcolumn]
  have hkey : Steps l (state (c.after (scalar true n key)) (ts ++ [textToken key]) (notedPlace c ts indent true) indent
      outer false) := by
    refine hstep _ (token?_key hsimple (hcolumn ▸ hindent) (blankAhead_afterKey n v _) hrest) ?_
    have hpos := List.length_pos_iff.2 (scalar_ne_nil true n key)
    show (c.after (scalar true n key)).rest.length < _
    rw [hrest₁, List.length_append]
    omega
  have hcolon : Steps (state (c.after (scalar true n key)) (ts ++ [textToken key]) (notedPlace c ts indent true) indent
      outer false) (state (c.after (scalar true n key)).skip
        (ts ++ (opening indent n ++ [.key, textToken key, .value])) none n (around indent outer n) false) := by
    refine steps_state (n := 0) hrest₁ (.cons (by decide) _) (List.cons_ne_nil _ _)
      (dropStale?_of_fresh (freshen?_notedPlace (Cursor.line_after_of_not_isBreak hlines c) ?_)) ?_ ?_ ?_
    · rw [Cursor.index_after, Cursor.index_after, length_spaces]
      omega
    · rw [Cursor.column_after_of_not_isBreak hlines]
      omega
    · rw [hplace]
      exact (token?_of_colon hrest₁ (blankAhead_afterKey n v _)).trans (value?_place hindent)
    · show (c.after (scalar true n key)).skip.rest.length < _
      rw [Cursor.rest_skip hrest₁, hrest₁]
      exact Nat.lt_succ_self _
  refine .of_steps (hkey.trans hcolon) ?_
  have hvalue : Reaches (state (c.after (scalar true n key)).skip
      (ts ++ (opening indent n ++ [.key, textToken key, .value])) none n (around indent outer n) false) m R n
      (ts ++ (opening indent n ++ [.key, textToken key, .value]) ++ valueTokens v) n (around indent outer n) := by
    refine hv.afterKey (Cursor.rest_skip hrest₁) hm ?_ hR
    show n < (c.after (scalar true n key)).column + 1
    rw [Cursor.column_after_of_not_isBreak hlines]
    omega
  simpa using hvalue

/-- Any other entry begins with a question mark, and the colon stands on a line of its own. -/
private theorem markedEntry_read (hv : ReadsValue v)
    (h : Awaits l n ('?' :: ' ' :: (scalarLine (n + 2) key ++
      (spaces n ++ ':' :: ' ' :: (Yaml.block (n + 2) v ++ (spaces m ++ R))))) n ts indent outer)
    (hindent : indent ≤ n) (hm : m ≤ n) (hR : Solid R) :
    Reaches l m R n (ts ++ (opening indent n ++ .key :: textToken key :: .value :: valueTokens v)) n
      (around indent outer n) := by
  obtain ⟨c, hrest, hcolumn, hstep⟩ := h.step (by simp)
  have hblank (rest : List Char) : blankAhead (' ' :: rest) = true := rfl
  -- the question mark
  have hmark : Steps l (state c.skip (ts ++ (opening indent n ++ [.key])) none n (around indent outer n) true) := by
    refine hstep _ ((token?_of_question hrest (hblank _)).trans ?_) ?_
    · rw [key?_state (hcolumn ▸ hindent), hcolumn]
    · show c.skip.rest.length < _
      rw [Cursor.rest_skip hrest]
      exact Nat.lt_succ_self _
  -- the key
  have hkey : Reaches (state c.skip (ts ++ (opening indent n ++ [.key])) none n (around indent outer n) true) n
      (':' :: ' ' :: (Yaml.block (n + 2) v ++ (spaces m ++ R))) n
      (ts ++ (opening indent n ++ [.key]) ++ [textToken key]) n (around indent outer n) := by
    refine (readsValue_string key).block (Cursor.rest_skip hrest) (Nat.le_refl n) ?_ (.cons (by decide) _)
    exact congrArg (· + 1) hcolumn
  obtain ⟨l', hsteps, hawaits⟩ := hkey
  -- the colon
  obtain ⟨c', hrest', hcolumn', hstep'⟩ := hawaits.step (List.cons_ne_nil _ _)
  have hvalue : Steps l' (state c'.skip (ts ++ (opening indent n ++ [.key]) ++ [textToken key] ++ [.value]) none n
      (around indent outer n) true) := by
    refine hstep' _ ((token?_of_colon hrest' (hblank _)).trans ?_) ?_
    · rw [value?_none (by omega), hcolumn', opening_self, around_self, List.nil_append]
    · show c'.skip.rest.length < _
      rw [Cursor.rest_skip hrest']
      exact Nat.lt_succ_self _
  refine .of_steps ((hmark.trans hsteps).trans hvalue) ?_
  have hread : Reaches (state c'.skip (ts ++ (opening indent n ++ [.key]) ++ [textToken key] ++ [.value]) none n
      (around indent outer n) true) m R n
      (ts ++ (opening indent n ++ [.key]) ++ [textToken key] ++ [.value] ++ valueTokens v) n
      (around indent outer n) := by
    exact hv.block (Cursor.rest_skip hrest') hm (congrArg (· + 1) hcolumn') hR
  simpa using hread

theorem entry_read {e : String × Value} (hv : ReadsValue e.2)
    (h : Awaits l n (entryText n e ++ (spaces m ++ R)) n ts indent outer) (hindent : indent ≤ n) (hm : m ≤ n)
    (hR : Solid R) :
    Reaches l m R n (ts ++ (opening indent n ++ .key :: textToken e.1 :: .value :: valueTokens e.2)) n
      (around indent outer n) := by
  rw [entryText] at h
  split at h
  · rename_i hsimple
    exact simpleEntry_read hv hsimple (by simpa using h) hindent hm hR
  · exact markedEntry_read hv (by simpa using h) hindent hm hR

/-- The entries of a map are read one by one. -/
theorem entries_read {es : List (String × Value)} (hvs : ∀ e ∈ es, ReadsValue e.2) {e : String × Value}
    (hv : ReadsValue e.2) (h : Awaits l n (entryText n e ++ (entries n es ++ (spaces m ++ R))) n ts indent outer)
    (hindent : indent ≤ n) (hm : m ≤ n) (hR : Solid R) :
    Reaches l m R n (ts ++ (opening indent n ++ entryTokens (e :: es))) n (around indent outer n) := by
  induction es generalizing l e ts indent outer with
  | nil =>
    simpa [entryTokens] using entry_read hv h hindent hm hR
  | cons e' es ih =>
    obtain ⟨hv', hvs⟩ := List.forall_mem_cons.1 hvs
    rw [entries_cons, List.append_assoc, List.append_assoc] at h
    obtain ⟨l', hsteps, hawaits⟩ := entry_read hv h hindent (Nat.le_refl n) (solid_entryText n e' _)
    have hrest := ih hvs hv' hawaits (Int.le_refl _)
    rw [opening_self, around_self] at hrest
    exact .of_steps hsteps (by simpa [entryTokens] using hrest)

/-- A map with entries is read as its entries in a block of their own. -/
private theorem readsValue_map {e : String × Value} {es : List (String × Value)}
    (hvs : ∀ e' ∈ e :: es, ReadsValue e'.2) :
    ReadsValue (.map (e :: es)) := by
  obtain ⟨hv, hvs⟩ := List.forall_mem_cons.1 hvs
  have hentries {l : Lexer} {ts outer m n R}
      (h : Awaits l (n + 2) (entryText (n + 2) e ++ (entries (n + 2) es ++ (spaces m ++ R))) ((n + 2 : Nat) : Int) ts n
        outer)
      (hm : m ≤ n) (hR : Solid R) : Reaches l m R n (ts ++ valueTokens (.map (e :: es))) n outer := by
    have hread := entries_read hvs hv h (by omega) (Nat.le_succ_of_le (Nat.le_succ_of_le hm)) hR
    have hopening : opening n (n + 2) = [.blockMapStart] := if_pos (by omega)
    have haround : around n outer (n + 2) = (n : Int) :: outer := if_pos (by omega)
    rw [hopening, haround] at hread
    have hclosed : Reaches l m R n _ n outer := hread.close (by omega) (by omega) (Int.le_refl _)
    simpa [valueTokens] using hclosed
  constructor
  · intro c ts outer m n R hrest hm hcolumn hR
    have hafter : Yaml.afterKey n (.map (e :: es)) = '\n' :: entries (n + 2) (e :: es) := rfl
    rw [hafter, entries_cons, List.cons_append, List.append_assoc, List.append_assoc] at hrest
    exact hentries (awaits_line hrest (solid_entryText _ e _) (by omega) fun q hq => by cases hq) hm hR
  · intro c ts outer m n R hrest hm hcolumn hR
    have hblock : Yaml.block (n + 2) (.map (e :: es)) = entryText (n + 2) e ++ entries (n + 2) es := by
      rw [Yaml.block, entries_cons]
      exact List.drop_left' (length_spaces (n + 2))
    rw [hblock, List.append_assoc] at hrest
    refine hentries (awaits_spaces (n := 1) hrest (by omega) (solid_entryText _ e _) (by omega) ?_) hm hR
    exact fun q hq => by cases hq

private theorem readsValue_of_textual {depth : Nat} (h : v.Textual depth) : ReadsValue v := by
  induction h with
  | bool b => exact readsValue_bool b
  | string s => exact readsValue_string s
  | map _ ih =>
    rename_i members _
    cases members with
    | nil => exact readsValue_empty
    | cons e es => exact readsValue_map ih

end Lexer

/-! ### Whole texts -/

private theorem isAllowed_of_isPrintable {d : Char} (h : isPrintable d = true) : isAllowed d = true := by
  simp only [isPrintable, isAllowed, Bool.or_eq_true, Bool.and_eq_true, decide_eq_true_eq, beq_iff_eq, bne_iff_ne] at h ⊢
  omega

/-- Data is written in characters that can be seen. -/
structure WritesVisibly (v : Value) : Prop where
  afterKey : ∀ n, ∀ d ∈ afterKey n v, isPrintable d = true
  block : ∀ n, ∀ d ∈ block n v, isPrintable d = true

private theorem isPrintable_of_mem_entries {es : List (String × Value)} (h : ∀ e ∈ es, WritesVisibly e.2) (n : Nat) :
    ∀ d ∈ entries n es, isPrintable d = true := by
  induction es with
  | nil => exact fun d hd => absurd hd List.not_mem_nil
  | cons e es ih =>
    obtain ⟨he, hes⟩ := List.forall_mem_cons.1 h
    have hentry : ∀ d ∈ entryText n e, isPrintable d = true := by
      rw [entryText]
      split
      · exact List.forall_mem_append.2
          ⟨isPrintable_of_mem_scalar true n e.1, List.forall_mem_cons.2 ⟨by decide, he.afterKey n⟩⟩
      · refine List.forall_mem_cons.2 ⟨by decide, List.forall_mem_cons.2 ⟨by decide, List.forall_mem_append.2
          ⟨isPrintable_of_mem_scalarLine _ e.1, List.forall_mem_append.2 ⟨isPrintable_of_mem_spaces n, ?_⟩⟩⟩⟩
        exact List.forall_mem_cons.2 ⟨by decide, List.forall_mem_cons.2 ⟨by decide, he.block _⟩⟩
    rw [entries_cons]
    exact List.forall_mem_append.2 ⟨isPrintable_of_mem_spaces n, List.forall_mem_append.2 ⟨hentry, ih hes⟩⟩

private theorem writesVisibly_of_textual {v : Value} {depth : Nat} (h : v.Textual depth) : WritesVisibly v := by
  have hsingle {v : Value} (hafter : ∀ n, ∃ m, afterKey n v = ' ' :: leaf m v) (hblock : ∀ n, block n v = leaf n v)
      (hleaf : ∀ n, ∀ d ∈ leaf n v, isPrintable d = true) : WritesVisibly v := by
    refine ⟨fun n => ?_, fun n => by rw [hblock]; exact hleaf n⟩
    obtain ⟨m, hm⟩ := hafter n
    rw [hm]
    exact List.forall_mem_cons.2 ⟨by decide, hleaf m⟩
  induction h with
  | bool b =>
    refine hsingle (fun n => ⟨n + 2, rfl⟩) (fun n => rfl) fun n => ?_
    show ∀ d ∈ (if b then "true\n" else "false\n").toList, isPrintable d = true
    cases b <;> exact forall_mem_of_all (by decide)
  | string s => exact hsingle (fun n => ⟨n + 2, rfl⟩) (fun n => rfl) fun n => isPrintable_of_mem_scalarLine n s
  | map _ ih =>
    rename_i members _
    cases members with
    | nil =>
      refine hsingle (fun n => ⟨n, rfl⟩) (fun n => rfl) fun n => ?_
      show ∀ d ∈ "\x7b\x7d\n".toList, isPrintable d = true
      exact forall_mem_of_all (by decide)
    | cons e es =>
      refine ⟨fun n => ?_, fun n d hd => ?_⟩
      · exact List.forall_mem_cons.2 ⟨by decide, isPrintable_of_mem_entries ih (n + 2)⟩
      · exact isPrintable_of_mem_entries ih n d (List.mem_of_mem_drop hd)

/-- A written map of texts and truth values has the tokens of the map. -/
theorem tokens?_render {e : String × Value} {es : List (String × Value)} {depth : Nat}
    (h : (Value.map (e :: es)).Textual depth) :
    tokens? (render (.map (e :: es))) = some (valueTokens (.map (e :: es))) := by
  have hall : ∀ e' ∈ e :: es, Lexer.ReadsValue e'.2 := by
    cases h with
    | map h => exact fun e' he' => Lexer.readsValue_of_textual (h e' he')
  obtain ⟨hv, hvs⟩ := List.forall_mem_cons.1 hall
  have hrender : (render (.map (e :: es))).toList = block 0 (.map (e :: es)) := String.toList_ofList
  have hblock : block 0 (.map (e :: es)) = entryText 0 e ++ (entries 0 es ++ (spaces 0 ++ [])) := by
    show (entries 0 (e :: es)).drop 0 = _
    rw [entries_cons]
    simp [spaces]
  have hallowed : (block 0 (.map (e :: es))).all isAllowed = true := by
    rw [List.all_eq_true]
    exact fun d hd => isAllowed_of_isPrintable ((writesVisibly_of_textual h).block 0 d hd)
  simp only [tokens?, hrender, hallowed, if_true]
  have hstart : Lexer.Awaits (Lexer.state ⟨block 0 (.map (e :: es)), 0, 0, 0⟩ [] none (-1) [] true) 0
      (entryText 0 e ++ (entries 0 es ++ (spaces 0 ++ []))) (0 : Nat) [] (-1) [] :=
    Lexer.awaits_spaces (n := 0) hblock rfl (Lexer.solid_entryText 0 e _) (by decide) fun q hq => by cases hq
  have hread : Lexer.Reaches _ 0 [] (-1) _ (-1) [] :=
    (Lexer.entries_read hvs hv hstart (by decide) (Nat.le_refl 0) .nil).close (by decide) (by decide) (Int.le_refl _)
  obtain ⟨l', hsteps, hawaits⟩ := hread
  obtain ⟨fuel, hfuel, heq⟩ := hsteps _ (Nat.lt_succ_self _)
  obtain ⟨fuel, rfl⟩ := Nat.exists_eq_succ_of_ne_zero (Nat.ne_zero_of_lt hfuel)
  have htokens := hawaits.runWith_eq fuel
  rw [← heq] at htokens
  exact htokens

end Yaml

end FieldRules
