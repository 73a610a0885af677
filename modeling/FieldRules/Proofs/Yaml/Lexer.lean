import FieldRules.Proofs.Yaml.Cursor
import FieldRules.Yaml.Lexer

/-!
# Going from token to token

What a run of the lexer comes to between two tokens. The key facts: `Steps.token` (a token is read, and the run goes
on), `Awaits` (the next token stands at the start of a line, and the blocks are closed down to a column), `Awaits.close`
and `Awaits.step`.
-/

namespace FieldRules.Yaml.Lexer

variable {l l' m : Lexer} {c : Cursor} {ts : List Token} {p : Option KeyPlace} {indent column : Int} {outer : List Int}
  {allowed : Bool} {k n : Nat} {R : List Char}

/-- A lexer outside of all brackets. -/
def state (c : Cursor) (ts : List Token) (p : Option KeyPlace) (indent : Int) (outer : List Int) (allowed : Bool) :
    Lexer := ⟨c, ts.toArray, p, [], indent, outer, allowed⟩

/-! ### Runs -/

/-- A run from one lexer comes to the same as a run from another. -/
def Steps (l l' : Lexer) : Prop :=
  ∀ fuel, l.cursor.rest.length < fuel →
    ∃ fuel', l'.cursor.rest.length < fuel' ∧ runWith fuel l = runWith fuel' l'

private theorem Steps.refl (l : Lexer) : Steps l l := fun fuel hfuel => ⟨fuel, hfuel, rfl⟩

theorem Steps.trans {l'' : Lexer} (h : Steps l l') (h' : Steps l' l'') : Steps l l'' := by
  intro fuel hfuel
  obtain ⟨fuel', hfuel', heq⟩ := h fuel hfuel
  obtain ⟨fuel'', hfuel'', heq'⟩ := h' fuel' hfuel'
  exact ⟨fuel'', hfuel'', heq.trans heq'⟩

/-- Reading a token is a step of the run. -/
theorem Steps.token (hready : l.skipToToken.dropStale? = some m) (hne : m.cursor.rest ≠ [])
    (htoken : (m.closeBlocks m.cursor.column).token? = some l')
    (hlength : l'.cursor.rest.length < l.cursor.rest.length) : Steps l l' := by
  intro fuel hfuel
  obtain ⟨fuel, rfl⟩ := Nat.exists_eq_succ_of_ne_zero (Nat.ne_zero_of_lt hfuel)
  refine ⟨fuel, by omega, ?_⟩
  rw [runWith, hready]
  simp [hne, htoken]

/-! ### Up to the next token -/

/-- Nothing that is passed over between tokens stands at the start of a text. -/
def Solid (cs : List Char) : Prop :=
  ∀ d ∈ cs.head?, isBlank d = false ∧ isBreak d = false ∧ d ≠ '#' ∧ d ≠ '\ufeff'

theorem Solid.cons {d : Char} (h : isBlank d = false ∧ isBreak d = false ∧ d ≠ '#' ∧ d ≠ '\ufeff') (rest : List Char) :
    Solid (d :: rest) := by
  intro e he
  obtain rfl : d = e := by simpa using he
  exact h

theorem Solid.nil : Solid [] := fun d hd => by cases hd

private theorem skipToTokenWith_spaces (hrest : l.cursor.rest = spaces n ++ R) (hR : Solid R) (fuel : Nat) :
    skipToTokenWith (fuel + 1) l = { l with cursor := l.cursor.after (spaces n) } := by
  have hafter := Cursor.rest_after hrest
  have hmark : atMark l.cursor = false := by
    have hhead : l.cursor.rest.head? ≠ some '\ufeff' := by
      rw [hrest]
      cases n with
      | zero => exact fun h => (hR _ h).2.2.2 rfl
      | succ n => simp [spaces_succ]
    simp [atMark, hhead]
  have htake (inFlow : Bool) : l.cursor.takeWhile (fun d => d == ' ' || (d == '\t' && inFlow)) =
      (spaces n, l.cursor.after (spaces n)) := by
    refine Cursor.takeWhile_eq_after hrest (fun d hd => ?_) fun d hd => ?_
    · rw [mem_spaces hd]
      exact ⟨rfl, rfl⟩
    · have hblank := (hR d hd).1
      simp only [isBlank, Bool.or_eq_false_iff] at hblank
      simp [hblank.1, hblank.2]
  have hsharp : (l.cursor.after (spaces n)).rest.head? ≠ some '#' := by
    rw [hafter]
    exact fun h => (hR _ h).2.2.1 rfl
  have hbreak : (l.cursor.after (spaces n)).atBreak = false := by
    rw [Cursor.atBreak, hafter]
    cases R with
    | nil => rfl
    | cons d rest => exact (hR d rfl).2.1
  simp only [skipToTokenWith, hmark, htake, hsharp, hbreak, Bool.false_eq_true, if_false]

theorem skipToToken_spaces (hrest : l.cursor.rest = spaces n ++ R) (hR : Solid R) :
    l.skipToToken = { l with cursor := l.cursor.after (spaces n) } := skipToTokenWith_spaces hrest hR _

/-- Behind the end of a line a key may begin. -/
private theorem skipToToken_line (hrest : c.rest = '\n' :: (spaces n ++ R)) (hR : Solid R) :
    (state c ts p indent outer allowed).skipToToken = state (c.after ('\n' :: spaces n)) ts p indent outer true := by
  have hbreak := Cursor.takeBreak_of_isBreak (by decide) (by decide) hrest
  have htake : c.takeWhile (fun d => d == ' ' || (d == '\t' && !allowed)) = ([], c.after []) :=
    Cursor.takeWhile_eq_after hrest (fun d hd => absurd hd List.not_mem_nil) fun d hd => by
      obtain rfl : '\n' = d := by simpa using hd
      cases allowed <;> rfl
  have hnil : c.after [] = c := rfl
  have hat : c.atBreak = true := by simp [Cursor.atBreak, hrest, isBreak]
  have hnext : (c.after ['\n']).rest = spaces n ++ R := Cursor.rest_after hrest
  have hmark : atMark c = false := by simp [atMark, hrest]
  have hlength : c.rest.length = (spaces n ++ R).length + 1 := by rw [hrest, List.length_cons]
  have hinFlow : (state c ts p indent outer allowed).inFlow = false := rfl
  have hsharp : c.rest.head? ≠ some '#' := by simp [hrest]
  have hcursor : (state c ts p indent outer allowed).cursor = c := rfl
  have hallowed : (state c ts p indent outer allowed).keyAllowed = allowed := rfl
  rw [skipToToken, hcursor, hlength, skipToTokenWith]
  simp only [hinFlow, hcursor, hallowed, hmark, Bool.false_or, Bool.false_eq_true, if_false, htake, hnil, hsharp, hat,
    if_true, Cursor.skipBreak, hbreak, Bool.not_false, Bool.or_true]
  rw [skipToTokenWith_spaces hnext hR]
  rfl

/-! ### The place where a key began -/

theorem dropStale?_none (c : Cursor) (ts : List Token) (indent : Int) (outer : List Int) (allowed : Bool) :
    (state c ts none indent outer allowed).dropStale? = some (state c ts none indent outer allowed) := rfl

/-- A place on an earlier line is forgotten, unless a key has to be there. -/
private theorem dropStale?_of_line_lt {q : KeyPlace} (hline : q.line < c.line) (hrequired : q.required = false) :
    (state c ts (some q) indent outer allowed).dropStale? = some (state c ts none indent outer allowed) := by
  simp [dropStale?, state, freshen?, isStale, hline, hrequired]

theorem dropStale?_of_fresh (h : freshen? c p = some p) :
    (state c ts p indent outer allowed).dropStale? = some (state c ts p indent outer allowed) := by
  simp [dropStale?, state, h]

/-! ### Blocks -/

private theorem closeBlocksWith_of_le (h : indent ≤ column) (tokens : Array Token) :
    closeBlocksWith column tokens indent outer = (tokens, indent, outer) := by
  cases outer with
  | nil => rfl
  | cons i rest => rw [closeBlocksWith, if_neg (Int.not_lt.2 h)]

private theorem closeBlocksWith_trans {column' : Int} (h : column' ≤ column) (tokens : Array Token) (indent : Int)
    (outer : List Int) :
    let closed := closeBlocksWith column tokens indent outer
    closeBlocksWith column' closed.1 closed.2.1 closed.2.2 = closeBlocksWith column' tokens indent outer := by
  induction outer generalizing tokens indent with
  | nil => rfl
  | cons i rest ih =>
    by_cases hlt : column < indent
    · rw [closeBlocksWith, if_pos hlt]
      simp only [ih]
      rw [closeBlocksWith.eq_def column' tokens indent (i :: rest)]
      simp [Int.lt_of_le_of_lt h hlt]
    · rw [closeBlocksWith, if_neg hlt]

private theorem closeBlocks_state {ts₀ : List Token} {indent₀ : Int} {outer₀ : List Int}
    (h : closeBlocksWith column ts₀.toArray indent₀ outer₀ = (ts.toArray, indent, outer)) :
    (state c ts₀ p indent₀ outer₀ allowed).closeBlocks column = state c ts p indent outer allowed := by
  have hinFlow : (state c ts₀ p indent₀ outer₀ allowed).inFlow = false := rfl
  rw [closeBlocks, hinFlow, if_neg Bool.false_ne_true]
  simp only [state, h]

/-- A token is read behind some spaces, and no block is closed. -/
theorem steps_state (hrest : c.rest = spaces n ++ R) (hR : Solid R) (hne : R ≠ [])
    (hkept : (state (c.after (spaces n)) ts p indent outer allowed).dropStale? =
      some (state (c.after (spaces n)) ts p indent outer allowed)) (hcolumn : indent ≤ c.column)
    (htoken : (state (c.after (spaces n)) ts p indent outer allowed).token? = some l')
    (hlength : l'.cursor.rest.length < c.rest.length) : Steps (state c ts p indent outer allowed) l' := by
  refine Steps.token (m := state (c.after (spaces n)) ts p indent outer allowed) ?_ ?_ ?_ hlength
  · rw [skipToToken_spaces hrest hR]
    exact hkept
  · rw [← Cursor.rest_after hrest] at hne
    exact hne
  · rw [closeBlocks_state (closeBlocksWith_of_le ?_ _)]
    · exact htoken
    · show indent ≤ ((c.after (spaces n)).column : Int)
      rw [Cursor.column_after_of_not_isBreak isBreak_of_mem_spaces]
      omega

/-! ### The start of a line -/

/-- The next token stands at a column of a line, with the given text, and when the blocks are closed down to another
column these tokens were read, and these blocks are open. -/
structure Awaits (l : Lexer) (k : Nat) (R : List Char) (column : Int) (ts : List Token) (indent : Int)
    (outer : List Int) : Prop where
  length_le : R.length ≤ l.cursor.rest.length
  ready : ∃ c ts₀ indent₀ outer₀,
    l.skipToToken.dropStale? = some (state c ts₀ none indent₀ outer₀ true) ∧ c.rest = R ∧ c.column = k ∧
      closeBlocksWith column ts₀.toArray indent₀ outer₀ = (ts.toArray, indent, outer)

/-- What is known of the place where a key may have begun when the lexer comes to a later line. -/
def Passed (p : Option KeyPlace) (line : Nat) : Prop := ∀ q ∈ p, q.line < line ∧ q.required = false

private theorem dropStale?_of_passed (h : Passed p c.line) :
    (state c ts p indent outer allowed).dropStale? = some (state c ts none indent outer allowed) := by
  cases p with
  | none => exact dropStale?_none c ts indent outer allowed
  | some q =>
    obtain ⟨hline, hrequired⟩ := h q rfl
    exact dropStale?_of_line_lt hline hrequired

theorem awaits_line (hrest : c.rest = '\n' :: (spaces k ++ R)) (hR : Solid R) (hindent : indent ≤ column)
    (hpassed : Passed p (c.line + 1)) : Awaits (state c ts p indent outer allowed) k R column ts indent outer := by
  have hline : (c.after ('\n' :: spaces k)).line = c.line + 1 := by
    rw [Cursor.after_cons, Cursor.line_after_of_not_isBreak isBreak_of_mem_spaces]
    rfl
  refine ⟨?_, c.after ('\n' :: spaces k), ts, indent, outer, ?_, ?_, ?_, closeBlocksWith_of_le hindent _⟩
  · show R.length ≤ c.rest.length
    rw [hrest, List.length_cons, List.length_append]
    omega
  · rw [skipToToken_line hrest hR]
    exact dropStale?_of_passed (hline ▸ hpassed)
  · exact Cursor.rest_after (by rw [hrest]; rfl)
  · exact Cursor.column_after_breaks (List.forall_mem_singleton.2 (by decide)) (List.cons_ne_nil '\n' []) c k

theorem awaits_spaces (hrest : c.rest = spaces n ++ R) (hcolumn : c.column + n = k) (hR : Solid R)
    (hindent : indent ≤ column) (hpassed : Passed p c.line) :
    Awaits (state c ts p indent outer true) k R column ts indent outer := by
  have hline : (c.after (spaces n)).line = c.line := Cursor.line_after_of_not_isBreak isBreak_of_mem_spaces c
  refine ⟨?_, c.after (spaces n), ts, indent, outer, ?_, Cursor.rest_after hrest, ?_, closeBlocksWith_of_le hindent _⟩
  · show R.length ≤ c.rest.length
    rw [hrest, List.length_append]
    omega
  · rw [skipToToken_spaces hrest hR]
    exact dropStale?_of_passed (hline.symm ▸ hpassed)
  · rw [Cursor.column_after_of_not_isBreak isBreak_of_mem_spaces, length_spaces, hcolumn]

/-- The innermost block is closed at a column left of it. -/
theorem Awaits.close {i : Int} (h : Awaits l k R column ts indent (i :: outer)) {column' : Int}
    (hle : column' ≤ column) (hlt : column' < indent) (hi : i ≤ column') :
    Awaits l k R column' (ts ++ [.blockEnd]) i outer := by
  obtain ⟨hlength, c, ts₀, indent₀, outer₀, hready, hrest, hcolumn, hclosed⟩ := h
  refine ⟨hlength, c, ts₀, indent₀, outer₀, hready, hrest, hcolumn, ?_⟩
  have htrans := closeBlocksWith_trans hle ts₀.toArray indent₀ outer₀
  rw [hclosed] at htrans
  rw [← htrans, closeBlocksWith, if_pos hlt, closeBlocksWith_of_le hi, List.push_toArray]

/-- The next token is read with the blocks closed down to its column. -/
theorem Awaits.step (h : Awaits l k R k ts indent outer) (hne : R ≠ []) :
    ∃ c, c.rest = R ∧ c.column = k ∧
      ∀ l', (state c ts none indent outer true).token? = some l' → l'.cursor.rest.length < R.length → Steps l l' := by
  obtain ⟨hlength, c, ts₀, indent₀, outer₀, hready, hrest, hcolumn, hclosed⟩ := h
  refine ⟨c, hrest, hcolumn, fun l' htoken hlt => Steps.token hready (by rw [← hrest] at hne; exact hne) ?_ (by omega)⟩
  rw [← hcolumn] at hclosed
  exact (congrArg token? (closeBlocks_state hclosed)).trans htoken

/-- The next token is read, and the one behind it stands at the start of a line. -/
def LeadsTo (l : Lexer) (k : Nat) (R : List Char) (column : Int) (ts : List Token) (indent : Int) (outer : List Int) :
    Prop :=
  ∃ l', l.token? = some l' ∧ l'.cursor.rest.length < l.cursor.rest.length ∧ Awaits l' k R column ts indent outer

/-- A run comes to a place where the next token stands at the start of a line. -/
def Reaches (l : Lexer) (k : Nat) (R : List Char) (column : Int) (ts : List Token) (indent : Int) (outer : List Int) :
    Prop := ∃ l', Steps l l' ∧ Awaits l' k R column ts indent outer

theorem Awaits.reaches (h : Awaits l k R column ts indent outer) : Reaches l k R column ts indent outer :=
  ⟨l, .refl l, h⟩

theorem Reaches.of_steps (h : Steps l l') (h' : Reaches l' k R column ts indent outer) :
    Reaches l k R column ts indent outer := by
  obtain ⟨m, hsteps, hawaits⟩ := h'
  exact ⟨m, h.trans hsteps, hawaits⟩

theorem Reaches.close {i : Int} (h : Reaches l k R column ts indent (i :: outer)) {column' : Int}
    (hle : column' ≤ column) (hlt : column' < indent) (hi : i ≤ column') :
    Reaches l k R column' (ts ++ [.blockEnd]) i outer := by
  obtain ⟨m, hsteps, hawaits⟩ := h
  exact ⟨m, hsteps, hawaits.close hle hlt hi⟩

/-- At the end of the text the tokens are those that were read when all blocks are closed. -/
theorem Awaits.runWith_eq (h : Awaits l k [] (-1) ts indent outer) (fuel : Nat) :
    (runWith (fuel + 1) l).map (·.tokens.toList) = some ts := by
  obtain ⟨-, c, ts₀, indent₀, outer₀, hready, hrest, -, hclosed⟩ := h
  have hempty : (state c ts₀ none indent₀ outer₀ true).cursor.rest.isEmpty = true := by simp [state, hrest]
  rw [runWith, hready]
  simp only [Option.bind_eq_bind, Option.bind_some, hempty, if_true, closeBlocks_state hclosed]
  rfl

end FieldRules.Yaml.Lexer
