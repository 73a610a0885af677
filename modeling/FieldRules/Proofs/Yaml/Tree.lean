import FieldRules.Proofs.Yaml.Rendering
import FieldRules.Yaml.Tree

/-!
# Written data as a tree

Maps of texts and truth values, written as YAML, are read as the trees of these maps. The key facts: `Reader.node_run`
(the tokens of data are read as its tree), `Tree.expand_eq` (where no part is used twice nothing is put in), and from
them `Tree.read?_render`.
-/

namespace FieldRules.Yaml

open Data (Value)

namespace Tree

/-- The tree of a written text. -/
def ofText (s : String) : Tree := .scalar none (styleOf false s = .plain) s

mutual

/-- The tree of data; lists, numbers and nothing are left out. -/
def ofValue : Value → Tree
  | .bool b => .scalar none true (if b then "true" else "false")
  | .string s => ofText s
  | .map es => .map none (ofEntries es)
  | _ => .broken

def ofEntries : List (String × Value) → List (Tree × Tree)
  | [] => []
  | (k, v) :: rest => (ofText k, ofValue v) :: ofEntries rest

end

end Tree

/-! ### Tokens as a tree -/

namespace Reader

variable {t u : Token} {ts : List Token} {handles : List (String × String)} {names : List (String × Nat)}
  {parts : List (Nat × Tree)} {fuel : Nat} {inBlock bareItems : Bool}

private theorem peek_run (r : Reading) : peek.run r = some (r.tokens.head?, r) := rfl

private theorem advance_run :
    advance.run ⟨t :: ts, handles, names, parts⟩ = some ((), ⟨ts, handles, names, parts⟩) := rfl

private theorem skip?_run :
    (skip? t).run ⟨t :: ts, handles, names, parts⟩ = some (true, ⟨ts, handles, names, parts⟩) := by
  simp [skip?, peek_run, advance_run]

private theorem skip?_run_of_ne (h : u ≠ t) :
    (skip? t).run ⟨u :: ts, handles, names, parts⟩ = some (false, ⟨u :: ts, handles, names, parts⟩) := by
  simp [skip?, peek_run, h]

private theorem expect_run :
    (expect t).run ⟨t :: ts, handles, names, parts⟩ = some ((), ⟨ts, handles, names, parts⟩) := by
  simp [expect, skip?_run]

private theorem ahead_run (us : List Token) (r : Reading) :
    (ahead us).run r = some (r.tokens.head?.any us.contains, r) := rfl

/-- Tokens that data begins with. -/
def StartsValue (t : Token) : Prop := (∃ plain text, t = .scalar plain text) ∨ t = .mapStart ∨ t = .blockMapStart

private theorem node_run_of_startsValue (h : StartsValue t) :
    (node (fuel + 1) inBlock bareItems).run ⟨t :: ts, handles, names, parts⟩ =
      (content fuel inBlock bareItems false none).run ⟨t :: ts, handles, names, parts⟩ := by
  obtain ⟨plain, text, rfl⟩ | rfl | rfl := h <;> simp [node, peek_run, properties, anchor?, tag?]

private theorem node_run_scalar {plain : Bool} {text : String} :
    (node (fuel + 2) inBlock bareItems).run ⟨.scalar plain text :: ts, handles, names, parts⟩ =
      some (.scalar none plain text, ⟨ts, handles, names, parts⟩) := by
  rw [node_run_of_startsValue (.inl ⟨plain, text, rfl⟩)]
  simp [content, peek_run, advance_run]

/-- The tokens of data begin with one that a value may begin with. -/
private theorem valueTokens_eq {v : Value} {depth : Nat} (h : v.Textual depth) :
    ∃ t ts, valueTokens v = t :: ts ∧ StartsValue t := by
  cases h with
  | bool b => exact ⟨_, [], rfl, .inl ⟨_, _, rfl⟩⟩
  | string s => exact ⟨_, [], rfl, .inl ⟨_, _, rfl⟩⟩
  | map _ =>
    rename_i members _
    cases members with
    | nil => exact ⟨.mapStart, [.mapEnd], rfl, .inr (.inl rfl)⟩
    | cons e es => exact ⟨.blockMapStart, _, rfl, .inr (.inr rfl)⟩

private theorem blockPart_run (h : StartsValue t) :
    (blockPart (fuel + 1)).run ⟨t :: ts, handles, names, parts⟩ =
      (node fuel true true).run ⟨t :: ts, handles, names, parts⟩ := by
  obtain ⟨plain, text, rfl⟩ | rfl | rfl := h <;> simp [blockPart, ahead_run]

/-- The tokens of a value are read as its tree, whatever follows. -/
def NodeReads (v : Value) : Prop :=
  ∀ fuel bareItems rest handles names parts, 3 * (valueTokens v).length ≤ fuel →
    (node fuel true bareItems).run ⟨valueTokens v ++ rest, handles, names, parts⟩ =
      some (.ofValue v, ⟨rest, handles, names, parts⟩)

private theorem blockPart_run_text (s : String) :
    (blockPart (fuel + 3)).run ⟨textToken s :: ts, handles, names, parts⟩ =
      some (.ofText s, ⟨ts, handles, names, parts⟩) := by
  rw [textToken, blockPart_run (.inl ⟨_, _, rfl⟩)]
  exact node_run_scalar

private theorem blockPart_run_value {v : Value} {depth : Nat} (h : v.Textual depth) (hnode : NodeReads v)
    (hfuel : 3 * (valueTokens v).length ≤ fuel) :
    (blockPart (fuel + 1)).run ⟨valueTokens v ++ ts, handles, names, parts⟩ =
      some (.ofValue v, ⟨ts, handles, names, parts⟩) := by
  have hread := hnode fuel true ts handles names parts hfuel
  obtain ⟨t, more, hvalue, hstarts⟩ := valueTokens_eq h
  rw [hvalue, List.cons_append] at hread ⊢
  rw [blockPart_run hstarts, hread]

private theorem blockEntries_run {es : List (String × Value)} {depth : Nat}
    (h : ∀ e ∈ es, e.2.Textual depth ∧ NodeReads e.2) (hfuel : 3 * (entryTokens es).length < fuel) :
    (blockEntries fuel).run ⟨entryTokens es ++ .blockEnd :: ts, handles, names, parts⟩ =
      some (Tree.ofEntries es, ⟨ts, handles, names, parts⟩) := by
  induction es generalizing fuel with
  | nil =>
    obtain ⟨fuel, rfl⟩ := Nat.exists_eq_succ_of_ne_zero (Nat.ne_zero_of_lt hfuel)
    have hend : (skip? .key).run ⟨.blockEnd :: ts, handles, names, parts⟩ = _ := skip?_run_of_ne (by decide)
    simp [blockEntries, entryTokens, hend, expect_run, Tree.ofEntries]
  | cons e es ih =>
    obtain ⟨⟨htextual, hnode⟩, hes⟩ := List.forall_mem_cons.1 h
    simp only [entryTokens, List.length_cons, List.length_append] at hfuel
    obtain ⟨fuel, rfl⟩ := Nat.exists_eq_add_of_le' (show 6 ≤ fuel by omega)
    have hvalue (us : List Token) : (blockPart (fuel + 5)).run ⟨valueTokens e.2 ++ us, handles, names, parts⟩ = _ :=
      blockPart_run_value htextual hnode (by omega)
    have hrest : (blockEntries (fuel + 5)).run ⟨entryTokens es ++ .blockEnd :: ts, handles, names, parts⟩ = _ :=
      ih hes (by omega)
    have htokens : entryTokens (e :: es) ++ .blockEnd :: ts =
        .key :: textToken e.1 :: .value :: (valueTokens e.2 ++ (entryTokens es ++ .blockEnd :: ts)) := by
      simp [entryTokens]
    rw [htokens, blockEntries]
    simp [skip?_run, blockPart_run_text, hvalue, hrest, Tree.ofEntries]

theorem node_run {v : Value} {depth : Nat} (h : v.Textual depth) : NodeReads v := by
  induction h with
  | bool b | string s =>
    intro fuel bareItems rest handles names parts hfuel
    obtain ⟨fuel, rfl⟩ := Nat.exists_eq_add_of_le' (Nat.le_of_succ_le hfuel)
    exact node_run_scalar
  | map hes ih =>
    rename_i members
    intro fuel bareItems rest handles names parts hfuel
    cases members with
    | nil =>
      obtain ⟨fuel, rfl⟩ := Nat.exists_eq_add_of_le' (show 6 ≤ fuel by exact hfuel)
      show (node (fuel + 5 + 1) true bareItems).run ⟨.mapStart :: .mapEnd :: rest, handles, names, parts⟩ = _
      rw [node_run_of_startsValue (.inr (.inl rfl))]
      simp [content, peek_run, advance_run, mapEntries, skip?_run, Tree.ofValue, Tree.ofEntries]
    | cons e es =>
      have htokens : valueTokens (.map (e :: es)) ++ rest =
          .blockMapStart :: (entryTokens (e :: es) ++ .blockEnd :: rest) := by
        simp [valueTokens]
      have hlength : (valueTokens (.map (e :: es))).length = (entryTokens (e :: es)).length + 2 := by
        simp [valueTokens]
      obtain ⟨fuel, rfl⟩ := Nat.exists_eq_add_of_le' (show 2 ≤ fuel by omega)
      have hentries : (blockEntries fuel).run ⟨entryTokens (e :: es) ++ .blockEnd :: rest, handles, names, parts⟩ = _ :=
        blockEntries_run (fun e' he' => ⟨hes e' he', ih e' he'⟩) (by omega)
      rw [htokens, node_run_of_startsValue (.inr (.inr rfl))]
      simp [content, peek_run, advance_run, hentries, Tree.ofValue]

private theorem isDocumentEdge_of_startsValue (h : StartsValue t) : isDocumentEdge t = false := by
  obtain ⟨plain, text, rfl⟩ | rfl | rfl := h <;> rfl

private theorem onlyDocument_run {v : Value} {depth : Nat} (h : v.Textual depth)
    (hfuel : 3 * (valueTokens v).length ≤ fuel) :
    (onlyDocument fuel).run ⟨valueTokens v, handles, names, parts⟩ =
      some (.ofValue v, ⟨[], handles, names, parts⟩) := by
  have hnode := node_run h fuel false [] handles names parts hfuel
  obtain ⟨t, ts, hvalue, hstarts⟩ := valueTokens_eq h
  rw [List.append_nil, hvalue] at hnode
  have hedge := isDocumentEdge_of_startsValue hstarts
  have hdocument : (document fuel).run ⟨t :: ts, handles, names, parts⟩ =
      some (.ofValue v, ⟨[], handles, names, parts⟩) := by
    obtain ⟨plain, text, rfl⟩ | rfl | rfl := hstarts <;> simp [document, peek_run, isDocumentEdge, hnode]
  rw [hvalue]
  simp [onlyDocument, hdocument]

end Reader

namespace Tree

variable {parts : List (Nat × Tree)} {limit : Nat}

private theorem expand_scalar (depth : Nat) (tag : Option String) (plain : Bool) (text : String) :
    expand parts limit depth (.scalar tag plain text) = pure (.scalar tag plain text) := by
  cases depth <;> delta expand <;> rfl

private theorem expand_map (depth : Nat) (tag : Option String) (entries : List (Tree × Tree)) :
    expand parts limit (depth + 1) (.map tag entries) = do
      return .map tag (← entries.mapM fun e => do
        return (← expand parts limit depth e.1, ← expand parts limit depth e.2)) := by
  delta expand
  rfl

/-- Where no part is used twice, nothing is put in. -/
private theorem expand_ofValue {v : Value} {depth limitDepth : Nat} (h : v.Textual depth)
    (hdepth : depth ≤ limitDepth) :
    expand parts limit limitDepth (.ofValue v) = pure (.ofValue v) := by
  induction h generalizing limitDepth with
  | bool b => exact expand_scalar _ _ _ _
  | string s => exact expand_scalar _ _ _ _
  | map _ ih =>
    rename_i members _
    obtain ⟨limitDepth, rfl⟩ := Nat.exists_eq_add_of_le' (show 1 ≤ limitDepth by omega)
    have hentries (es : List (String × Value)) (hes : ∀ e ∈ es, e ∈ members) :
        ((ofEntries es).mapM fun e => do
          return (← expand parts limit limitDepth e.1, ← expand parts limit limitDepth e.2)) =
          (pure (ofEntries es) : StateM Nat _) := by
      induction es with
      | nil => rfl
      | cons e es ihs =>
        obtain ⟨he, hes⟩ := List.forall_mem_cons.1 hes
        have hvalue := ih e he (Nat.le_of_succ_le_succ hdepth)
        simp only [ofEntries, ofText, List.mapM_cons, expand_scalar, hvalue, ihs hes, pure_bind]
    rw [ofValue, expand_map, hentries members fun e he => he]
    rfl

/-- A written map of texts and truth values is read as its tree. -/
theorem read?_render {e : String × Value} {es : List (String × Value)} {depth : Nat}
    (h : (Value.map (e :: es)).Textual depth) (hdepth : depth ≤ 128) :
    read? (render (.map (e :: es))) = some (.ofValue (.map (e :: es))) := by
  have hdocument : (Reader.onlyDocument (3 * (valueTokens (.map (e :: es))).length + 3)).run
      ⟨valueTokens (.map (e :: es)), [("!", "!"), ("!!", "tag:yaml.org,2002:")], [], []⟩ = _ :=
    Reader.onlyDocument_run h (Nat.le_add_right _ 3)
  simp [read?, tokens?_render h, hdocument, expand_ofValue h hdepth]
  rfl

end Tree

end FieldRules.Yaml
