import FieldRules.Json.Document
import FieldRules.Proofs.NameMap

/-!
# Data with its keys in order

A document and its data may have the members of their maps put in the order of the names, of each name the last
(`Document.tabulated`, `Node.tabulated`). The key facts: `Document.keyed_read` (in what is read from a text every key
that has a value is a string) and `Document.Keyed.node?_tabulated` (the data of a document in order is its data put in
order).
-/

namespace FieldRules

open Data (Node)

theorem forall_of_forall₂ {α β : Type} {p : β → Prop} {l : List α} {l' : List β}
    (h : List.Forall₂ (fun _ b => p b) l l') : ∀ b ∈ l', p b := by
  induction h with
  | nil => simp
  | cons hb _ ih => exact List.forall_mem_cons.2 ⟨hb, ih⟩

theorem forall₂_append_cons_iff {α β : Type} {R : α → β → Prop} {l l' : List α} {a : α} {u : List β} :
    List.Forall₂ R (l ++ a :: l') u ↔
      ∃ v b v', List.Forall₂ R l v ∧ R a b ∧ List.Forall₂ R l' v' ∧ v ++ b :: v' = u := by
  constructor
  · intro h
    induction l generalizing u with
    | nil =>
      obtain ⟨b, v', hb, hv', rfl⟩ := List.forall₂_cons_left_iff.1 h
      exact ⟨[], b, v', .nil, hb, hv', rfl⟩
    | cons c rest ih =>
      obtain ⟨d, u', hd, hu', rfl⟩ := List.forall₂_cons_left_iff.1 h
      obtain ⟨v, b, v', hv, hb, hv', rfl⟩ := ih hu'
      exact ⟨d :: v, b, v', .cons hd hv, hb, hv', rfl⟩
  · rintro ⟨v, b, v', hv, hb, hv', rfl⟩
    exact List.rel_append hv (.cons hb hv')

namespace Data.Node

mutual

/-- The data with the entries of every map in the order of their names, the last of each name standing. -/
def tabulated : Node → Node
  | .list items => .list (tabulatedItems items)
  | .map entries => .map ((NameMap.ofList (tabulatedEntries entries)).entries.map fun (k, v) => (.string k, v))
  | n => n

def tabulatedItems : List Node → List Node
  | [] => []
  | n :: rest => n.tabulated :: tabulatedItems rest

def tabulatedEntries : List (Node × Node) → List (String × Node)
  | [] => []
  | (.string k, n) :: rest => (k, n.tabulated) :: tabulatedEntries rest
  | _ :: rest => tabulatedEntries rest

end

theorem tabulatedItems_eq (items : List Node) : tabulatedItems items = items.map tabulated := by
  induction items with
  | nil => rfl
  | cons n rest ih => rw [tabulatedItems, ih, List.map_cons]

/-- Every key in the data is a text. -/
inductive Keyed : Node → Prop
  | null : Keyed .null
  | bool (b : Bool) : Keyed (.bool b)
  | number (n : Number) : Keyed (.number n)
  | string (s : String) : Keyed (.string s)
  | list {items : List Node} : (∀ n ∈ items, Keyed n) → Keyed (.list items)
  | map {entries : List (Node × Node)} :
      (∀ e ∈ entries, ∃ k, e.1 = .string k) → (∀ e ∈ entries, Keyed e.2) → Keyed (.map entries)

end Data.Node

namespace Json.Document

/-- Every key in the document that has a value is a string. -/
inductive Keyed : Document → Prop
  | null : Keyed .null
  | bool (b : Bool) : Keyed (.bool b)
  | number (l : Literal) : Keyed (.number l)
  | string (s : Option String) : Keyed (.string s)
  | list {items : List Document} {closed : Bool} : (∀ d ∈ items, Keyed d) → Keyed (.list items closed)
  | map {members : List (Document × Document)} {closed : Bool} :
      (∀ m ∈ members, m.2 = .broken ∨ ∃ s, m.1 = .string s) → (∀ m ∈ members, Keyed m.2) → Keyed (.map members closed)
  | broken : Keyed .broken

private theorem mem_itemsWith {fuel : Nat} {ts : List Token} {d : Document} (h : d ∈ (itemsWith (fuel + 1) ts).1) :
    d = (valueWith fuel ts).1 ∨ ∃ ts', d ∈ (itemsWith fuel ts').1 := by
  unfold itemsWith at h
  dsimp only at h
  split at h
  · exact .inl (List.mem_singleton.1 h)
  · exact .inl (List.mem_singleton.1 h)
  · rcases List.mem_cons.1 h with rfl | h
    · exact .inl rfl
    · exact .inr ⟨_, h⟩
  · exact .inl (List.mem_singleton.1 h)

private theorem mem_membersWith {fuel : Nat} {ts : List Token} {m : Document × Document}
    (h : m ∈ (membersWith (fuel + 1) ts).1) :
    m.2 = .broken ∨ (∃ s ts', m = (.string s, (valueWith fuel ts').1)) ∨ ∃ ts', m ∈ (membersWith fuel ts').1 := by
  unfold membersWith at h
  split at h
  · dsimp only at h
    split at h
    · exact .inr (.inl ⟨_, _, List.mem_singleton.1 h⟩)
    · exact .inr (.inl ⟨_, _, List.mem_singleton.1 h⟩)
    · rcases List.mem_cons.1 h with rfl | h
      · exact .inr (.inl ⟨_, _, rfl⟩)
      · exact .inr (.inr ⟨_, h⟩)
    · exact .inr (.inl ⟨_, _, List.mem_singleton.1 h⟩)
  · obtain rfl := List.mem_singleton.1 h
    exact .inl rfl

/-- With the same fuel, values are keyed, and so are the items of lists and the members of maps. -/
private theorem keyed_with (fuel : Nat) :
    (∀ ts, (valueWith fuel ts).1.Keyed) ∧ (∀ ts, ∀ d ∈ (itemsWith fuel ts).1, d.Keyed) ∧
      ∀ ts, ∀ m ∈ (membersWith fuel ts).1, (m.2 = .broken ∨ ∃ s, m.1 = .string s) ∧ m.2.Keyed := by
  induction fuel with
  | zero =>
    refine ⟨fun _ => .broken, ?_, ?_⟩
    · intro ts d hd
      obtain rfl := List.mem_singleton.1 hd
      exact .broken
    · intro ts m hm
      obtain rfl := List.mem_singleton.1 hm
      exact ⟨.inl rfl, .broken⟩
  | succ fuel ih =>
    obtain ⟨hvalue, hitems, hmembers⟩ := ih
    refine ⟨?_, ?_, ?_⟩
    · intro ts
      unfold valueWith
      split
      · exact .null
      · exact .bool _
      · exact .number _
      · exact .string _
      · exact .list (by simp)
      · exact .list (hitems _)
      · exact .map (by simp) (by simp)
      · exact .map (fun m hm => (hmembers _ m hm).1) (fun m hm => (hmembers _ m hm).2)
      · exact .broken
    · intro ts d hd
      obtain rfl | ⟨ts', hd⟩ := mem_itemsWith hd
      · exact hvalue ts
      · exact hitems ts' d hd
    · intro ts m hm
      obtain hbroken | ⟨s, ts', rfl⟩ | ⟨ts', hm⟩ := mem_membersWith hm
      · exact ⟨.inl hbroken, hbroken ▸ .broken⟩
      · exact ⟨.inr ⟨s, rfl⟩, hvalue ts'⟩
      · exact hmembers ts' m hm

theorem keyed_read (text : String) : (read text).1.Keyed := by
  unfold read
  exact (keyed_with _).1 _

/-! ### The data of a document in order -/

private theorem tabulatedItems_eq (items : List Document) : tabulatedItems items = items.map tabulated := by
  induction items with
  | nil => rfl
  | cons d rest ih => rw [tabulatedItems, ih, List.map_cons]

private theorem itemNodes?_eq_some_iff {budget : Nat} {items : List Document} {nodes : List Node} :
    itemNodes? budget items = some nodes ↔ List.Forall₂ (fun d n => d.node? budget = some n) items nodes := by
  induction items generalizing nodes with
  | nil => simp [itemNodes?, eq_comm]
  | cons d rest ih =>
    rw [List.forall₂_cons_left_iff]
    simp only [itemNodes?, Option.bind_eq_bind, Option.bind_eq_some_iff, Option.pure_def, Option.some.injEq, ih]
    constructor
    · rintro ⟨n, hn, others, hothers, rfl⟩
      exact ⟨n, others, hn, hothers, rfl⟩
    · rintro ⟨n, others, hn, hothers, rfl⟩
      exact ⟨n, hn, others, hothers, rfl⟩

theorem memberNodes?_eq_some_iff {budget : Nat} {members : List (Document × Document)} {entries : List (Node × Node)} :
    memberNodes? budget members = some entries ↔
      List.Forall₂ (fun m e => m.1.node? budget = some e.1 ∧ m.2.node? budget = some e.2) members entries := by
  induction members generalizing entries with
  | nil => simp [memberNodes?, eq_comm]
  | cons m rest ih =>
    rw [List.forall₂_cons_left_iff]
    simp only [memberNodes?, Option.bind_eq_bind, Option.bind_eq_some_iff, Option.pure_def, Option.some.injEq, ih]
    constructor
    · rintro ⟨key, hkey, n, hn, others, hothers, rfl⟩
      exact ⟨(key, n), others, ⟨hkey, hn⟩, hothers, rfl⟩
    · rintro ⟨⟨key, n⟩, others, ⟨hkey, hn⟩, hothers, rfl⟩
      exact ⟨key, hkey, n, hn, others, hothers, rfl⟩

private theorem node?_list_eq_some_iff {budget : Nat} {items : List Document} {closed : Bool} {n : Node} :
    (list items closed).node? budget = some n ↔
      (closed = true ∧ 1 < budget) ∧ ∃ nodes, itemNodes? (budget - 1) items = some nodes ∧ .list nodes = n := by
  simp only [node?, Option.bind_eq_bind, Option.bind_eq_some_iff, Bool.and_eq_true, decide_eq_true_eq]
  constructor
  · rintro ⟨nodes, hnodes, h⟩
    split at h
    · exact ⟨‹_›, nodes, hnodes, Option.some.inj h⟩
    · cases h
  · rintro ⟨hopen, nodes, hnodes, rfl⟩
    exact ⟨nodes, hnodes, if_pos hopen⟩

theorem node?_map_eq_some_iff {budget : Nat} {members : List (Document × Document)} {closed : Bool} {n : Node} :
    (map members closed).node? budget = some n ↔
      (closed = true ∧ 1 < budget) ∧ ∃ entries, memberNodes? (budget - 1) members = some entries ∧ .map entries = n := by
  simp only [node?, Option.bind_eq_bind, Option.bind_eq_some_iff, Bool.and_eq_true, decide_eq_true_eq]
  constructor
  · rintro ⟨entries, hentries, h⟩
    split at h
    · exact ⟨‹_›, entries, hentries, Option.some.inj h⟩
    · cases h
  · rintro ⟨hopen, entries, hentries, rfl⟩
    exact ⟨entries, hentries, if_pos hopen⟩

/-- A member with a key that is a text, and the entry that it becomes. -/
private def Becomes (R : Document → Node → Prop) (m : Document × Document) (e : Node × Node) : Prop :=
  (∃ k, m.1 = .string (some k) ∧ e.1 = .string k) ∧ R m.2 e.2

private theorem becomes_of_memberNodes? {budget : Nat} {members : List (Document × Document)}
    {entries : List (Node × Node)} (hkeys : ∀ m ∈ members, m.2 = .broken ∨ ∃ s, m.1 = .string s)
    (h : memberNodes? budget members = some entries) :
    List.Forall₂ (Becomes fun d n => d.node? budget = some n) members entries := by
  refine ((List.forall₂_and_left _ _).2 ⟨hkeys, memberNodes?_eq_some_iff.1 h⟩).imp ?_
  rintro ⟨key, d⟩ ⟨k, n⟩ ⟨hkey, hk, hn⟩
  dsimp only at hkey hk hn
  obtain rfl | ⟨s, rfl⟩ := hkey
  · cases hn
  · obtain ⟨name, rfl, rfl⟩ := Option.map_eq_some_iff.1 hk
    exact ⟨⟨name, rfl, rfl⟩, hn⟩

private theorem related_tabulated {R : Document → Node → Prop} {members : List (Document × Document)}
    {entries : List (Node × Node)} (h : List.Forall₂ (Becomes fun d n => R d.tabulated n.tabulated) members entries) :
    NameMap.Related (fun _ => R) (tabulatedMembers members) (Node.tabulatedEntries entries) := by
  induction h with
  | nil => exact .nil
  | @cons m e _ _ he _ ih =>
    obtain ⟨key, d⟩ := m
    obtain ⟨k, n⟩ := e
    obtain ⟨⟨name, rfl, rfl⟩, hn⟩ := he
    exact .cons ⟨rfl, hn⟩ ih

private theorem memberNodes?_of_related {budget : Nat} {l : List (String × Document)} {l' : List (String × Node)}
    (h : NameMap.Related (fun _ d n => d.node? budget = some n) l l') :
    memberNodes? budget (l.map fun (k, d) => (.string (some k), d)) =
      some (l'.map fun (k, n) => (.string k, n)) := by
  rw [memberNodes?_eq_some_iff, List.forall₂_map_left_iff, List.forall₂_map_right_iff]
  refine h.imp ?_
  rintro ⟨k, d⟩ ⟨k', n⟩ ⟨rfl, hn⟩
  exact ⟨rfl, hn⟩

/-- The data of a document in order is its data put in order; more lists and maps may be entered than needed. -/
theorem Keyed.node?_tabulated {d : Document} (h : d.Keyed) {b budget : Nat} {n : Node} (hn : d.node? b = some n)
    (hb : b ≤ budget) : d.tabulated.node? budget = some n.tabulated := by
  induction h generalizing b budget n with
  | null | bool _ =>
    cases hn
    rfl
  | number _ | string _ =>
    obtain ⟨x, hx, rfl⟩ := Option.map_eq_some_iff.1 hn
    exact Option.map_eq_some_iff.2 ⟨x, hx, rfl⟩
  | broken => cases hn
  | @list items closed _ ih =>
    obtain ⟨⟨hclosed, hlt⟩, nodes, hnodes, rfl⟩ := node?_list_eq_some_iff.1 hn
    refine node?_list_eq_some_iff.2 ⟨⟨hclosed, by omega⟩, _, ?_, rfl⟩
    rw [itemNodes?_eq_some_iff] at hnodes ⊢
    rw [tabulatedItems_eq, Node.tabulatedItems_eq, List.forall₂_map_left_iff, List.forall₂_map_right_iff]
    refine ((List.forall₂_and_left _ _).2 ⟨ih, hnodes⟩).imp ?_
    rintro d n ⟨ihd, hd⟩
    exact ihd hd (by omega)
  | @map members closed hkeys _ ih =>
    obtain ⟨⟨hclosed, hlt⟩, entries, hentries, rfl⟩ := node?_map_eq_some_iff.1 hn
    refine node?_map_eq_some_iff.2 ⟨⟨hclosed, by omega⟩, _, ?_, rfl⟩
    -- the keys of members that have data are texts, so on both sides the same members are entered under the same names
    have hbecomes := becomes_of_memberNodes? hkeys hentries
    refine memberNodes?_of_related (related_tabulated ?_).entries_ofList
    refine ((List.forall₂_and_left _ _).2 ⟨ih, hbecomes⟩).imp ?_
    rintro m e ⟨ihm, hkey, hm⟩
    exact ⟨hkey, ihm hm (by omega)⟩

/-- In the data of a document every key is a text. -/
theorem Keyed.keyed_node {d : Document} (h : d.Keyed) {b : Nat} {n : Node} (hn : d.node? b = some n) : n.Keyed := by
  induction h generalizing b n with
  | null | bool _ =>
    cases hn
    constructor
  | number _ | string _ =>
    obtain ⟨x, -, rfl⟩ := Option.map_eq_some_iff.1 hn
    constructor
  | broken => cases hn
  | @list items closed _ ih =>
    obtain ⟨-, nodes, hnodes, rfl⟩ := node?_list_eq_some_iff.1 hn
    have hkeyed : List.Forall₂ (fun _ n => n.Keyed) items nodes :=
      ((List.forall₂_and_left _ _).2 ⟨ih, itemNodes?_eq_some_iff.1 hnodes⟩).imp fun _ _ h => h.1 h.2
    exact .list (forall_of_forall₂ hkeyed)
  | @map members closed hkeys _ ih =>
    obtain ⟨-, entries, hentries, rfl⟩ := node?_map_eq_some_iff.1 hn
    have hbecomes := becomes_of_memberNodes? hkeys hentries
    have hkeyed : List.Forall₂ (fun _ e => (∃ k, e.1 = .string k) ∧ e.2.Keyed) members entries := by
      refine ((List.forall₂_and_left _ _).2 ⟨ih, hbecomes⟩).imp ?_
      rintro m e ⟨ihm, ⟨k, -, hk⟩, hm⟩
      exact ⟨⟨k, hk⟩, ihm hm⟩
    exact .map (fun e he => (forall_of_forall₂ hkeyed e he).1) (fun e he => (forall_of_forall₂ hkeyed e he).2)

end Json.Document

end FieldRules
