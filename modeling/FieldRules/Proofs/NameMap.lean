import FieldRules.NameMap
import Mathlib.Data.List.Forall2
import Mathlib.Data.List.Sort

/-!
# Looking entries up

What is found in a map that is kept in the order of its names. The key facts: `NameMap.find?_insert` (an insertion
changes nothing else), `NameMap.find?_ofList` (of entries with one name the last one stands), `NameMap.ext_of_find?` and
`NameMap.Related.entries_ofList` (entering lists whose values are related pairwise gives entries that are).
-/

namespace FieldRules

namespace NameMap

variable {α : Type}

theorem lookup_cons (name n : String) (value : α) (l : List (String × α)) :
    ((name, value) :: l).lookup n = if n = name then some value else l.lookup n := by
  by_cases h : n = name
  · simp [h]
  · have hbeq : (n == name) = false := by simpa using h
    rw [List.lookup_cons, hbeq, if_neg h]

private theorem lookup_place (name n : String) (value : α) (l : List (String × α)) :
    (place name value l).lookup n = if n = name then some value else l.lookup n := by
  induction l with
  | nil => rw [place, lookup_cons]
  | cons head rest ih =>
    obtain ⟨m, v⟩ := head
    unfold place
    split
    · rw [lookup_cons]
    · split
      · rename_i hlt
        rw [lookup_cons, lookup_cons, ih]
        by_cases h : n = m
        · rw [if_pos h, if_pos h, if_neg (h ▸ String.ne_of_lt hlt)]
        · rw [if_neg h, if_neg h]
      · rename_i h1 h2
        obtain rfl : name = m := String.le_antisymm (String.not_lt.1 h2) (String.not_lt.1 h1)
        rw [lookup_cons, lookup_cons]
        by_cases h : n = name
        · rw [if_pos h, if_pos h]
        · rw [if_neg h, if_neg h, if_neg h]

theorem find?_insert (m : NameMap α) (name n : String) (value : α) :
    (m.insert name value).find? n = if n = name then some value else m.find? n :=
  lookup_place name n value m.entries

theorem find?_eq_some_iff {m : NameMap α} {name : String} {value : α} :
    m.find? name = some value ↔ (name, value) ∈ m.entries := by
  constructor
  · exact mem_entries_of_find?
  · intro h
    obtain ⟨before, after, hentries⟩ := List.append_of_mem h
    refine List.lookup_eq_some_iff.2 ⟨before, after, hentries, ?_⟩
    intro e he
    have hsorted := m.sorted
    rw [hentries, List.pairwise_append] at hsorted
    have hlt : e.1 < name := hsorted.2.2 e he (name, value) List.mem_cons_self
    simpa using (String.ne_of_lt hlt).symm

/-- A map is known by what is found in it. -/
theorem ext_of_find? {m m' : NameMap α} (h : ∀ name, m.find? name = m'.find? name) : m = m' := by
  have hirrefl : Std.Irrefl fun e e' : String × α => e.1 < e'.1 := ⟨fun e => String.lt_irrefl e.1⟩
  have hantisymm : Std.Antisymm fun e e' : String × α => e.1 < e'.1 :=
    ⟨fun e e' hlt hgt => absurd (String.lt_trans hlt hgt) (String.lt_irrefl e.1)⟩
  have hentries : m.entries = m'.entries := by
    refine List.Pairwise.eq_of_mem_iff m.sorted m'.sorted ?_
    intro e
    rw [← find?_eq_some_iff, ← find?_eq_some_iff, h]
  cases m
  cases m'
  cases hentries
  rfl

theorem nodup_names (m : NameMap α) : m.names.Nodup :=
  List.pairwise_map.2 (m.sorted.imp String.ne_of_lt)

/-- Of entries with one name the last one stands. -/
theorem find?_ofList (l : List (String × α)) (name : String) : (ofList l).find? name = l.reverse.lookup name := by
  have hfold (m : NameMap α) :
      (l.foldl (fun m e => m.insert e.1 e.2) m).find? name = (l.reverse.lookup name).or (m.find? name) := by
    induction l generalizing m with
    | nil => rfl
    | cons e rest ih =>
      rw [List.foldl_cons, ih, find?_insert, List.reverse_cons, List.lookup_append, Option.or_assoc, lookup_cons]
      by_cases hn : name = e.1
      · rw [if_pos hn, if_pos hn, Option.some_or]
      · rw [if_neg hn, if_neg hn]
        rfl
  have hempty : (empty : NameMap α).find? name = none := rfl
  rw [ofList, hfold, hempty, Option.or_none]

theorem mem_of_mem_entries_ofList {l : List (String × α)} {e : String × α} (h : e ∈ (ofList l).entries) : e ∈ l := by
  have hfind := find?_eq_some_iff.2 h
  rw [find?_ofList] at hfind
  obtain ⟨before, after, hl, -⟩ := List.lookup_eq_some_iff.1 hfind
  have hmem : e ∈ l.reverse := hl ▸ List.mem_append_right before List.mem_cons_self
  exact List.mem_reverse.1 hmem

/-- The values under a name, in order. -/
def valuesOf (l : List (String × α)) (name : String) : List α :=
  l.filterMap fun e => if e.1 = name then some e.2 else none

theorem valuesOf_cons (e : String × α) (l : List (String × α)) (name : String) :
    valuesOf (e :: l) name = if e.1 = name then e.2 :: valuesOf l name else valuesOf l name := by
  rw [valuesOf, List.filterMap_cons]
  split <;> simp_all [valuesOf]

private theorem lookup_reverse (l : List (String × α)) (name : String) :
    l.reverse.lookup name = (valuesOf l name).getLast? := by
  induction l with
  | nil => rfl
  | cons e rest ih =>
    rw [List.reverse_cons, List.lookup_append, ih, lookup_cons, valuesOf_cons]
    by_cases hname : e.1 = name
    · rw [if_pos hname, if_pos hname.symm, List.getLast?_cons]
      cases (valuesOf rest name).getLast? <;> rfl
    · rw [if_neg hname, if_neg (Ne.symm hname)]
      exact Option.or_none

private theorem valuesOf_eq_lookup {l : List (String × α)} (h : l.Pairwise (·.1 < ·.1)) (name : String) :
    valuesOf l name = (l.lookup name).toList := by
  induction l with
  | nil => rfl
  | cons e rest ih =>
    obtain ⟨hlt, hrest⟩ := List.pairwise_cons.1 h
    rw [lookup_cons, valuesOf_cons, ih hrest]
    by_cases hname : e.1 = name
    · have hnone : rest.lookup name = none := by
        refine List.lookup_eq_none_iff.2 ?_
        intro e' he'
        have hne : e.1 ≠ e'.1 := String.ne_of_lt (hlt e' he')
        simpa [hname] using hne
      rw [if_pos hname, if_pos hname.symm, hnone]
      rfl
    · rw [if_neg hname, if_neg (Ne.symm hname)]

/-- Of the values under a name the last one is kept. -/
theorem valuesOf_entries_ofList (l : List (String × α)) (name : String) :
    valuesOf (ofList l).entries name = (valuesOf l name).getLast?.toList := by
  rw [valuesOf_eq_lookup (ofList l).sorted, ← lookup_reverse, ← find?_ofList]
  rfl

/-- Entering the entries of a map gives the map. -/
theorem ofList_entries (m : NameMap α) : ofList m.entries = m := by
  refine ext_of_find? fun name => ?_
  rw [find?_ofList, lookup_reverse, valuesOf_eq_lookup m.sorted, find?]
  cases m.entries.lookup name <;> rfl

section Related

variable {β : Type} {R : String → α → β → Prop} {l : List (String × α)} {l' : List (String × β)}

/-- Entries of the same names, with values that are related under their name. -/
def Related (R : String → α → β → Prop) (l : List (String × α)) (l' : List (String × β)) : Prop :=
  List.Forall₂ (fun e e' => e.1 = e'.1 ∧ R e.1 e.2 e'.2) l l'

private theorem Related.place (h : Related R l l') (name : String) {value : α} {value' : β}
    (hvalue : R name value value') : Related R (place name value l) (place name value' l') := by
  induction h with
  | nil => exact .cons ⟨rfl, hvalue⟩ .nil
  | @cons e e' rest rest' he hrest ih =>
    obtain ⟨n, v⟩ := e
    obtain ⟨n', v'⟩ := e'
    obtain ⟨rfl, hv⟩ : n = n' ∧ R n v v' := he
    unfold NameMap.place
    split
    · exact .cons ⟨rfl, hvalue⟩ (.cons ⟨rfl, hv⟩ hrest)
    · split
      · exact .cons ⟨rfl, hv⟩ ih
      · exact .cons ⟨rfl, hvalue⟩ hrest

/-- Entering related lists gives related entries. -/
theorem Related.entries_ofList (h : Related R l l') : Related R (ofList l).entries (ofList l').entries := by
  refine List.rel_foldl (P := fun (m : NameMap α) (m' : NameMap β) => Related R m.entries m'.entries) ?_ ?_ h
  case refine_2 => exact .nil
  rintro m m' hm ⟨n, v⟩ ⟨n', v'⟩ ⟨rfl, hv⟩
  exact hm.place n hv

end Related

end NameMap

end FieldRules
