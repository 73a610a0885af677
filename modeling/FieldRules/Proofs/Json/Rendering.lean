import FieldRules.Json.Document
import FieldRules.Proofs.Json.Token

/-!
# Written data reads back

Data that is written as JSON, in one line or over many, reads back as a document that says the same
(`Document.ofValue`), as long as each of its numbers is written as one literal or as `null` (`Readable`). The key facts:
`Token.reads_render` and `Token.reads_renderAt` (both texts have the tokens of the data), `Document.valueWith_ofValue`
(these tokens are read as the document) and `Document.read_written`.
-/

namespace FieldRules

open Data (Value)

/-- Data without numbers. -/
inductive Data.Value.Numberless : Value → Prop
  | null : Numberless .null
  | bool (b : Bool) : Numberless (.bool b)
  | string (s : String) : Numberless (.string s)
  | list {items : List Value} : (∀ v ∈ items, Numberless v) → Numberless (.list items)
  | map {members : List (String × Value)} : (∀ m ∈ members, Numberless m.2) → Numberless (.map members)

namespace Json

/-- Data each number of which is written as one literal, or as `null` where it is none. -/
inductive Readable : Value → Prop
  | null : Readable .null
  | bool (b : Bool) : Readable (.bool b)
  | number {n : Data.Number} {l : Literal} : Token.ReadsApart n.text.toList [.number l] → Readable (.number n)
  | nullNumber {n : Data.Number} : n.text = "null" → Readable (.number n)
  | string (s : String) : Readable (.string s)
  | list {items : List Value} : (∀ v ∈ items, Readable v) → Readable (.list items)
  | map {members : List (String × Value)} : (∀ m ∈ members, Readable m.2) → Readable (.map members)

theorem readable_of_numberless {v : Value} (h : v.Numberless) : Readable v := by
  induction h with
  | null => exact .null
  | bool b => exact .bool b
  | string s => exact .string s
  | list _ ih => exact .list ih
  | map _ ih => exact .map ih

/-! ### Tokens -/

namespace Token

mutual

/-- The tokens of data; those of a number are the tokens of its text. -/
def ofValue : Value → List Token
  | .null => [.null]
  | .bool b => [.bool b]
  | .number n => scan n.text.toList
  | .string s => [.string (some s)]
  | .list items => .openList :: (ofItems items ++ [.closeList])
  | .map members => .openMap :: (ofMembers members ++ [.closeMap])

def ofItems : List Value → List Token
  | [] => []
  | [v] => ofValue v
  | v :: rest => ofValue v ++ .comma :: ofItems rest

def ofMembers : List (String × Value) → List Token
  | [] => []
  | [(k, v)] => .string (some k) :: .colon :: ofValue v
  | (k, v) :: rest => .string (some k) :: .colon :: (ofValue v ++ .comma :: ofMembers rest)

end

private theorem ofItems_cons_cons (v w : Value) (rest : List Value) :
    ofItems (v :: w :: rest) = ofValue v ++ .comma :: ofItems (w :: rest) := by
  rw [ofItems]
  exact List.cons_ne_nil _ _

private theorem ofMembers_cons_cons (m m' : String × Value) (rest : List (String × Value)) :
    ofMembers (m :: m' :: rest) =
      .string (some m.1) :: .colon :: (ofValue m.2 ++ .comma :: ofMembers (m' :: rest)) := by
  rw [ofMembers]
  exact List.cons_ne_nil _ _

/-! ### Separated pieces -/

section Separated

variable {α : Type}

/-- Tokens that are put one behind the other with commas between them. -/
private theorem eq_intercalate_tokens {f : List α → List Token} {tokens : α → List Token} (hnil : f [] = [])
    (hone : ∀ x, f [x] = tokens x) (hcons : ∀ x y rest, f (x :: y :: rest) = tokens x ++ comma :: f (y :: rest))
    (l : List α) : f l = [comma].intercalate (l.map tokens) := by
  induction l with
  | nil => exact hnil
  | cons x rest ih =>
    cases rest with
    | nil => simp [hone]
    | cons y others => simp [hcons, ih, List.intercalate_cons_cons]

/-- Texts that are put one behind the other with commas between them. -/
private theorem eq_intercalate_text {f : List α → String} {text : α → String} (hnil : f [] = "")
    (hone : ∀ x, f [x] = text x) (hcons : ∀ x y rest, f (x :: y :: rest) = text x ++ "," ++ f (y :: rest))
    (l : List α) : f l = ",".intercalate (l.map text) := by
  induction l with
  | nil => exact hnil
  | cons x rest ih =>
    cases rest with
    | nil => simp [hone]
    | cons y others => simp [hcons, ih, String.intercalate_cons_cons]

end Separated

private theorem ofItems_eq (items : List Value) : ofItems items = [comma].intercalate (items.map ofValue) :=
  eq_intercalate_tokens (by rw [ofItems]) (fun _ => by rw [ofItems]) ofItems_cons_cons items

private theorem ofMembers_eq (members : List (String × Value)) :
    ofMembers members =
      [comma].intercalate (members.map fun m => .string (some m.1) :: .colon :: ofValue m.2) :=
  eq_intercalate_tokens (by rw [ofMembers]) (fun _ => by rw [ofMembers]) ofMembers_cons_cons members

private theorem renderItems_eq (items : List Value) : renderItems items = ",".intercalate (items.map render) :=
  eq_intercalate_text (by rw [renderItems]) (fun _ => by rw [renderItems]) (fun _ _ _ => by simp [renderItems]) items

private theorem renderMembers_eq (members : List (String × Value)) :
    renderMembers members = ",".intercalate (members.map fun m => quote m.1 ++ ":" ++ render m.2) :=
  eq_intercalate_text (by rw [renderMembers]) (fun _ => by rw [renderMembers])
    (fun _ _ _ => by simp [renderMembers]) members

private theorem renderItemsAt_eq (level : Nat) (items : List Value) :
    renderItemsAt level items = ",".intercalate (items.map fun v => lineBreak level ++ renderAt level v) :=
  eq_intercalate_text (by rw [renderItemsAt]) (fun _ => by rw [renderItemsAt])
    (fun _ _ _ => by simp [renderItemsAt]) items

private theorem renderMembersAt_eq (level : Nat) (members : List (String × Value)) :
    renderMembersAt level members =
      ",".intercalate (members.map fun m => lineBreak level ++ quote m.1 ++ ": " ++ renderAt level m.2) :=
  eq_intercalate_text (by rw [renderMembersAt]) (fun _ => by rw [renderMembersAt])
    (fun _ _ _ => by simp [renderMembersAt]) members

private theorem readsApart_intercalate {α : Type} {text : α → String} {tokens : α → List Token} {l : List α}
    (h : ∀ x ∈ l, ReadsApart (text x).toList (tokens x)) :
    ReadsApart (",".intercalate (l.map text)).toList ([comma].intercalate (l.map tokens)) := by
  have hcomma : Reads [','] [comma] := reads_of_next (by decide) fun _ => rfl
  have hsep : ",".toList = [','] := rfl
  rw [String.toList_intercalate, hsep, List.map_map]
  induction l with
  | nil => exact reads_nil.apart
  | cons x rest ih =>
    obtain ⟨hx, hrest⟩ := List.forall_mem_cons.1 h
    cases rest with
    | nil => simpa using hx
    | cons y others =>
      have := (hx.append (by decide) hcomma).append_apart (ih hrest)
      simpa [List.intercalate_cons_cons] using this

private theorem reads_lineBreak (level : Nat) : Reads (lineBreak level).toList [] := by
  refine reads_spaces ?_
  intro c hc
  rw [lineBreak, String.toList_ofList] at hc
  rcases List.mem_cons.1 hc with rfl | hc
  · rfl
  · rw [List.eq_of_mem_replicate hc]
    rfl

private theorem reads_null : Reads "null".toList [.null] := reads_of_next (by decide) fun _ => rfl

private theorem reads_bool (b : Bool) : Reads (if b then "true" else "false").toList [.bool b] := by
  cases b with
  | true => exact reads_of_next (by decide) fun _ => rfl
  | false => exact reads_of_next (by decide) fun _ => rfl

/-- A text in brackets reads as a list of what it reads as. -/
private theorem ReadsApart.inList {text : String} {tokens : List Token} (h : ReadsApart text.toList tokens) :
    Reads ("[" ++ text ++ "]").toList (.openList :: (tokens ++ [.closeList])) := by
  have hopen : Reads ['['] [openList] := reads_of_next (by decide) fun _ => rfl
  have hclose : Reads [']'] [closeList] := reads_of_next (by decide) fun _ => rfl
  simpa using hopen.append (h.append (by decide) hclose)

/-- A text in braces reads as a map of what it reads as. -/
private theorem ReadsApart.inMap {text : String} {tokens : List Token} (h : ReadsApart text.toList tokens) :
    Reads ("\x7b" ++ text ++ "\x7d").toList (.openMap :: (tokens ++ [.closeMap])) := by
  have hopen : Reads ['\x7b'] [openMap] := reads_of_next (by decide) fun _ => rfl
  have hclose : Reads ['\x7d'] [closeMap] := reads_of_next (by decide) fun _ => rfl
  simpa using hopen.append (h.append (by decide) hclose)

private theorem ReadsApart.append_lineBreak {text : List Char} {tokens : List Token} (h : ReadsApart text tokens)
    (level : Nat) : Reads (text ++ (lineBreak level).toList) tokens := by
  have hbreak := reads_lineBreak level
  rw [lineBreak, String.toList_ofList] at hbreak ⊢
  simpa using h.append (by decide) hbreak

private theorem reads_space : Reads [' '] [] := reads_spaces (List.forall_mem_singleton.2 rfl)

private theorem reads_colon : Reads [':'] [colon] := reads_of_next (by decide) fun _ => rfl

/-- The tokens of a number are the literal alone that it is written as. -/
private theorem ofValue_number {n : Data.Number} {l : Literal} (h : ReadsApart n.text.toList [.number l]) :
    ofValue (.number n) = [.number l] := by
  rw [ofValue]
  exact h.scan

private theorem ofValue_nullNumber {n : Data.Number} (h : n.text = "null") : ofValue (.number n) = [.null] := by
  rw [ofValue, h]
  exact reads_null.apart.scan

private theorem readsApart_number {n : Data.Number} {l : Literal} (h : ReadsApart n.text.toList [.number l]) :
    ReadsApart n.text.toList (ofValue (.number n)) := by
  rwa [ofValue_number h]

private theorem readsApart_nullNumber {n : Data.Number} (h : n.text = "null") :
    ReadsApart n.text.toList (ofValue (.number n)) := by
  rw [ofValue_nullNumber h, h]
  exact reads_null.apart

/-- The text in one line has the tokens of the data. -/
theorem reads_render {v : Value} (h : Readable v) : ReadsApart (render v).toList (ofValue v) := by
  induction h with
  | null => exact reads_null.apart
  | bool b => exact (reads_bool b).apart
  | number hn => exact readsApart_number hn
  | nullNumber hn => exact readsApart_nullNumber hn
  | string s => exact (reads_quote s).apart
  | list _ ih =>
    rw [render, ofValue, renderItems_eq, ofItems_eq]
    exact (readsApart_intercalate ih).inList.apart
  | map _ ih =>
    rw [render, ofValue, renderMembers_eq, ofMembers_eq]
    refine (readsApart_intercalate ?_).inMap.apart
    intro m hm
    have hmember := (reads_quote m.1).append_apart (reads_colon.append_apart (ih m hm))
    simpa using hmember

/-- So does the text with every item and member on a line of its own. -/
theorem reads_renderAt {v : Value} (h : Readable v) (level : Nat) :
    ReadsApart (renderAt level v).toList (ofValue v) := by
  have hempty : ReadsApart "".toList [] := reads_nil.apart
  induction h generalizing level with
  | null => exact reads_null.apart
  | bool b => exact (reads_bool b).apart
  | number hn => exact readsApart_number hn
  | nullNumber hn => exact readsApart_nullNumber hn
  | string s => exact (reads_quote s).apart
  | @list items _ ih =>
    -- brackets with nothing between them get no line breaks
    cases items with
    | nil =>
      have htext : renderAt level (.list []) = "[" ++ "" ++ "]" := by rw [renderAt]; rfl
      rw [htext, ofValue, ofItems]
      exact hempty.inList.apart
    | cons v rest =>
      have htext : renderAt level (.list (v :: rest)) =
          "[" ++ (renderItemsAt (level + 1) (v :: rest) ++ lineBreak level) ++ "]" := by
        rw [renderAt]
        · simp only [String.append_assoc]
        · exact List.cons_ne_nil _ _
      rw [htext, ofValue, renderItemsAt_eq, ofItems_eq]
      refine Reads.apart (ReadsApart.inList ?_)
      rw [String.toList_append]
      refine ((readsApart_intercalate ?_).append_lineBreak level).apart
      intro x hx
      rw [String.toList_append]
      exact (reads_lineBreak (level + 1)).append_apart (ih x hx (level + 1))
  | @map members _ ih =>
    cases members with
    | nil =>
      have htext : renderAt level (.map []) = "\x7b" ++ "" ++ "\x7d" := by rw [renderAt]; rfl
      rw [htext, ofValue, ofMembers]
      exact hempty.inMap.apart
    | cons m rest =>
      have htext : renderAt level (.map (m :: rest)) =
          "\x7b" ++ (renderMembersAt (level + 1) (m :: rest) ++ lineBreak level) ++ "\x7d" := by
        rw [renderAt]
        · simp only [String.append_assoc]
        · exact List.cons_ne_nil _ _
      rw [htext, ofValue, renderMembersAt_eq, ofMembers_eq]
      refine Reads.apart (ReadsApart.inMap ?_)
      rw [String.toList_append]
      refine ((readsApart_intercalate ?_).append_lineBreak level).apart
      intro x hx
      have hmember := (reads_lineBreak (level + 1)).append_apart
        ((reads_quote x.1).append_apart (reads_colon.append_apart (reads_space.append_apart (ih x hx (level + 1)))))
      simpa using hmember

/-- The tokens of data do not begin with the end of a list. -/
private theorem head?_ofValue_append {v : Value} (h : Readable v) (ts : List Token) :
    (ofValue v ++ ts).head? ≠ some .closeList := by
  cases h with
  | number hn => simp [ofValue_number hn]
  | nullNumber hn => simp [ofValue_nullNumber hn]
  | _ => simp [ofValue]

private theorem head?_ofItems_append {v : Value} (h : Readable v) (rest : List Value) (ts : List Token) :
    (ofItems (v :: rest) ++ ts).head? ≠ some .closeList := by
  cases rest with
  | nil => exact head?_ofValue_append h ts
  | cons w others =>
    rw [ofItems_cons_cons, List.append_assoc]
    exact head?_ofValue_append h _

private theorem head?_ofMembers_append (m : String × Value) (rest : List (String × Value)) (ts : List Token) :
    (ofMembers (m :: rest) ++ ts).head? ≠ some .closeMap := by
  cases rest with
  | nil => simp [ofMembers]
  | cons m' others => simp [ofMembers_cons_cons]

end Token

/-! ### Documents -/

namespace Document

mutual

/-- Data as a document; a number is what its text is read as. -/
def ofValue : Value → Document
  | .null => .null
  | .bool b => .bool b
  | .number n => (read n.text).1
  | .string s => .string (some s)
  | .list items => .list (ofItems items) true
  | .map members => .map (ofMembers members) true

def ofItems : List Value → List Document
  | [] => []
  | v :: rest => ofValue v :: ofItems rest

def ofMembers : List (String × Value) → List (Document × Document)
  | [] => []
  | (k, v) :: rest => (.string (some k), ofValue v) :: ofMembers rest

end

theorem ofItems_eq (items : List Value) : ofItems items = items.map ofValue := by
  induction items with
  | nil => rfl
  | cons v rest ih => rw [ofItems, ih, List.map_cons]

theorem ofMembers_eq (members : List (String × Value)) :
    ofMembers members = members.map fun m => (.string (some m.1), ofValue m.2) := by
  induction members with
  | nil => rfl
  | cons m rest ih => rw [ofMembers, ih, List.map_cons]

private theorem valueWith_openList {fuel : Nat} {ts rest : List Token} {items : List Document}
    (hts : ts.head? ≠ some .closeList) (h : itemsWith fuel ts = (items, some rest)) :
    valueWith (fuel + 1) (.openList :: ts) = (.list items true, some rest) := by
  rw [valueWith]
  · rw [h]
    rfl
  · rintro after rfl
    exact hts rfl

private theorem valueWith_openMap {fuel : Nat} {ts rest : List Token} {members : List (Document × Document)}
    (hts : ts.head? ≠ some .closeMap) (h : membersWith fuel ts = (members, some rest)) :
    valueWith (fuel + 1) (.openMap :: ts) = (.map members true, some rest) := by
  rw [valueWith]
  · rw [h]
    rfl
  · rintro after rfl
    exact hts rfl

private theorem itemsWith_comma {fuel : Nat} {ts next rest : List Token} {item : Document} {items : List Document}
    (hnext : next.head? ≠ some .closeList) (hitem : valueWith fuel ts = (item, some (.comma :: next)))
    (h : itemsWith fuel next = (items, some rest)) :
    itemsWith (fuel + 1) ts = (item :: items, some rest) := by
  rw [itemsWith, hitem]
  cases next with
  | nil => simp only [h]
  | cons t after =>
    cases t with
    | closeList => exact absurd rfl hnext
    | _ => simp only [h]

private theorem membersWith_comma {fuel : Nat} {key : Option String} {ts next rest : List Token} {value : Document}
    {members : List (Document × Document)} (hnext : next.head? ≠ some .closeMap)
    (hvalue : valueWith fuel ts = (value, some (.comma :: next)))
    (h : membersWith fuel next = (members, some rest)) :
    membersWith (fuel + 1) (.string key :: .colon :: ts) = ((.string key, value) :: members, some rest) := by
  rw [membersWith, hvalue]
  cases next with
  | nil => simp only [h]
  | cons t after =>
    cases t with
    | closeMap => exact absurd rfl hnext
    | _ => simp only [h]

theorem ofValue_number {n : Data.Number} {l : Literal} (h : Token.ReadsApart n.text.toList [.number l]) :
    ofValue (.number n) = .number l := by
  rw [ofValue, read, h.scan]
  rfl

theorem ofValue_nullNumber {n : Data.Number} (h : n.text = "null") : ofValue (.number n) = .null := by
  have hscan : Token.scan n.text.toList = [.null] := by
    rw [← Token.ofValue_nullNumber h, Token.ofValue]
  rw [ofValue, read, hscan]
  rfl

/-- That the tokens of data are read as its document, whatever follows them. -/
private def Parses (v : Value) : Prop :=
  ∀ fuel ts, (Token.ofValue v).length ≤ fuel → valueWith fuel (Token.ofValue v ++ ts) = (ofValue v, some ts)

private theorem itemsWith_ofItems {v : Value} {rest : List Value} (hdata : ∀ w ∈ v :: rest, Readable w)
    (h : ∀ w ∈ v :: rest, Parses w) {fuel : Nat} (hfuel : (Token.ofItems (v :: rest)).length < fuel)
    (ts : List Token) :
    itemsWith fuel (Token.ofItems (v :: rest) ++ .closeList :: ts) = (ofItems (v :: rest), some ts) := by
  induction rest generalizing v fuel with
  | nil =>
    obtain ⟨n, rfl⟩ := Nat.exists_eq_add_one_of_ne_zero (Nat.ne_zero_of_lt hfuel)
    have hv := h v List.mem_cons_self n (.closeList :: ts) (Nat.le_of_lt_succ hfuel)
    rw [Token.ofItems, itemsWith, hv]
    rfl
  | cons w others ih =>
    obtain ⟨n, rfl⟩ := Nat.exists_eq_add_one_of_ne_zero (Nat.ne_zero_of_lt hfuel)
    rw [Token.ofItems_cons_cons, List.length_append, List.length_cons] at hfuel
    obtain ⟨hvdata, hothersdata⟩ := List.forall_mem_cons.1 hdata
    obtain ⟨hv, hothers⟩ := List.forall_mem_cons.1 h
    rw [Token.ofItems_cons_cons, List.append_assoc, List.cons_append]
    exact itemsWith_comma (Token.head?_ofItems_append (hothersdata w List.mem_cons_self) _ _)
      (hv n _ (by omega)) (ih hothersdata hothers (by omega))

private theorem membersWith_ofMembers {m : String × Value} {rest : List (String × Value)}
    (h : ∀ m' ∈ m :: rest, Parses m'.2) {fuel : Nat} (hfuel : (Token.ofMembers (m :: rest)).length < fuel)
    (ts : List Token) :
    membersWith fuel (Token.ofMembers (m :: rest) ++ .closeMap :: ts) = (ofMembers (m :: rest), some ts) := by
  induction rest generalizing m fuel with
  | nil =>
    obtain ⟨n, rfl⟩ := Nat.exists_eq_add_one_of_ne_zero (Nat.ne_zero_of_lt hfuel)
    rw [Token.ofMembers, List.length_cons, List.length_cons] at hfuel
    have hv := h m List.mem_cons_self n (.closeMap :: ts) (by omega)
    rw [Token.ofMembers, List.cons_append, List.cons_append, membersWith, hv]
    rfl
  | cons m' others ih =>
    obtain ⟨n, rfl⟩ := Nat.exists_eq_add_one_of_ne_zero (Nat.ne_zero_of_lt hfuel)
    rw [Token.ofMembers_cons_cons, List.length_cons, List.length_cons, List.length_append, List.length_cons] at hfuel
    obtain ⟨hv, hothers⟩ : Parses m.2 ∧ ∀ m'' ∈ m' :: others, Parses m''.2 := List.forall_mem_cons.1 h
    rw [Token.ofMembers_cons_cons, List.cons_append, List.cons_append, List.append_assoc, List.cons_append]
    exact membersWith_comma (Token.head?_ofMembers_append _ _ _) (hv n _ (by omega)) (ih hothers (by omega))

private theorem parses {v : Value} (h : Readable v) : Parses v := by
  induction h with
  | null | bool b | string s =>
    intro fuel ts hfuel
    obtain ⟨n, rfl⟩ := Nat.exists_eq_add_one_of_ne_zero (Nat.ne_zero_of_lt hfuel)
    rfl
  | number hn =>
    intro fuel ts hfuel
    rw [Token.ofValue_number hn, List.length_singleton] at hfuel
    obtain ⟨n, rfl⟩ := Nat.exists_eq_add_one_of_ne_zero (Nat.ne_zero_of_lt hfuel)
    rw [Token.ofValue_number hn, ofValue_number hn]
    rfl
  | nullNumber hn =>
    intro fuel ts hfuel
    rw [Token.ofValue_nullNumber hn, List.length_singleton] at hfuel
    obtain ⟨n, rfl⟩ := Nat.exists_eq_add_one_of_ne_zero (Nat.ne_zero_of_lt hfuel)
    rw [Token.ofValue_nullNumber hn, ofValue_nullNumber hn]
    rfl
  | @list items hdata ih =>
    intro fuel ts hfuel
    rw [Token.ofValue, List.length_cons, List.length_append, List.length_singleton] at hfuel
    obtain ⟨n, rfl⟩ := Nat.exists_eq_add_one_of_ne_zero (Nat.ne_zero_of_lt hfuel)
    rw [Token.ofValue, List.cons_append, List.append_assoc, List.singleton_append]
    -- an empty list is read by an equation of its own: its closing bracket is not the start of an item
    cases items with
    | nil => rfl
    | cons w rest =>
      exact valueWith_openList (Token.head?_ofItems_append (hdata w List.mem_cons_self) _ _)
        (itemsWith_ofItems hdata ih (by omega) ts)
  | @map members _ ih =>
    intro fuel ts hfuel
    rw [Token.ofValue, List.length_cons, List.length_append, List.length_singleton] at hfuel
    obtain ⟨n, rfl⟩ := Nat.exists_eq_add_one_of_ne_zero (Nat.ne_zero_of_lt hfuel)
    rw [Token.ofValue, List.cons_append, List.append_assoc, List.singleton_append]
    cases members with
    | nil => rfl
    | cons m rest =>
      exact valueWith_openMap (Token.head?_ofMembers_append _ _ _) (membersWith_ofMembers ih (by omega) ts)

/-- The tokens of data are read as its document, and what follows them is left. -/
theorem valueWith_ofValue {v : Value} (h : Readable v) {fuel : Nat} (hfuel : (Token.ofValue v).length ≤ fuel)
    (ts : List Token) : valueWith fuel (Token.ofValue v ++ ts) = (ofValue v, some ts) :=
  parses h fuel ts hfuel

private theorem read_of_reads {v : Value} (h : Readable v) {text : String}
    (htext : Token.ReadsApart text.toList (Token.ofValue v)) : read text = (ofValue v, true) := by
  have hvalue : valueWith (2 * (Token.ofValue v).length + 2) (Token.ofValue v ++ []) = (ofValue v, some []) :=
    valueWith_ofValue h (by omega) []
  rw [List.append_nil] at hvalue
  rw [read, htext.scan]
  simp only [hvalue]

/-- Data written in one line or over many reads back. -/
theorem read_written {v : Value} (h : Readable v) {text : String} (htext : text = render v ∨ text = renderPretty v) :
    read text = (ofValue v, true) := by
  rcases htext with rfl | rfl
  · exact read_of_reads h (Token.reads_render h)
  · exact read_of_reads h (Token.reads_renderAt h 0)

theorem read_render {v : Value} (h : v.Numberless) : read (render v) = (ofValue v, true) :=
  read_written (readable_of_numberless h) (.inl rfl)

theorem read_renderPretty {v : Value} (h : v.Numberless) : read (renderPretty v) = (ofValue v, true) :=
  read_written (readable_of_numberless h) (.inr rfl)

end Document

end Json

end FieldRules
