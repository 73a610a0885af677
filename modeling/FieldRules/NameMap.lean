/-!
# Maps kept in the order of their names

A `NameMap` is a list of named entries in strictly increasing order of the names, so that listing it never
depends on how it was built. Names are ordered by code points, which is the order of their UTF-8 bytes.
-/

namespace FieldRules

structure NameMap (α : Type) where
  entries : List (String × α)
  sorted : entries.Pairwise (·.1 < ·.1)
  deriving DecidableEq

namespace NameMap

variable {α : Type}

def empty : NameMap α := ⟨[], .nil⟩

/-- Puts an entry in its place in a list, over any entry of the same name. -/
def place (name : String) (value : α) : List (String × α) → List (String × α)
  | [] => [(name, value)]
  | (n, v) :: rest =>
    if name < n then (name, value) :: (n, v) :: rest
    else if n < name then (n, v) :: place name value rest
    else (name, value) :: rest

theorem mem_place {name : String} {value : α} {l : List (String × α)} {e : String × α}
    (h : e ∈ place name value l) : e = (name, value) ∨ e ∈ l := by
  induction l with
  | nil => simp [place] at h; simp [h]
  | cons head rest ih =>
    obtain ⟨n, v⟩ := head
    unfold place at h
    split at h
    · rcases List.mem_cons.1 h with rfl | h
      · exact .inl rfl
      · exact .inr h
    · split at h
      · rcases List.mem_cons.1 h with rfl | h
        · exact .inr (by simp)
        · rcases ih h with h | h
          · exact .inl h
          · exact .inr (List.mem_cons_of_mem _ h)
      · rcases List.mem_cons.1 h with rfl | h
        · exact .inl rfl
        · exact .inr (List.mem_cons_of_mem _ h)

private theorem eq_of_not_lt_of_not_lt {a b : String} (h : ¬ a < b) (h' : ¬ b < a) : a = b :=
  String.le_antisymm (String.not_lt.1 h') (String.not_lt.1 h)

theorem pairwise_place {name : String} {value : α} {l : List (String × α)}
    (h : l.Pairwise (·.1 < ·.1)) : (place name value l).Pairwise (·.1 < ·.1) := by
  induction l with
  | nil => simp [place]
  | cons head rest ih =>
    obtain ⟨n, v⟩ := head
    obtain ⟨hn, hrest⟩ := List.pairwise_cons.1 h
    unfold place
    split
    · rename_i lt
      refine List.pairwise_cons.2 ⟨?_, h⟩
      intro e he
      rcases List.mem_cons.1 he with rfl | he
      · exact lt
      · exact String.lt_trans lt (hn e he)
    · split
      · rename_i lt
        refine List.pairwise_cons.2 ⟨?_, ih hrest⟩
        intro e he
        rcases mem_place he with rfl | he
        · exact lt
        · exact hn e he
      · rename_i h1 h2
        have : name = n := eq_of_not_lt_of_not_lt h1 h2
        subst this
        exact List.pairwise_cons.2 ⟨hn, hrest⟩

/-- Adds an entry, over any entry of the same name. -/
def insert (m : NameMap α) (name : String) (value : α) : NameMap α :=
  ⟨place name value m.entries, pairwise_place m.sorted⟩

def find? (m : NameMap α) (name : String) : Option α := m.entries.lookup name

theorem mem_entries_of_find? {m : NameMap α} {name : String} {value : α} (h : m.find? name = some value) :
    (name, value) ∈ m.entries := by
  obtain ⟨before, after, hentries, -⟩ := List.lookup_eq_some_iff.1 h
  rw [hentries]
  simp

def contains (m : NameMap α) (name : String) : Bool := (m.find? name).isSome

def names (m : NameMap α) : List String := m.entries.map (·.1)

def size (m : NameMap α) : Nat := m.entries.length

/-- Enters a list from left to right, so that of two entries with one name the later stands. -/
def ofList (l : List (String × α)) : NameMap α :=
  l.foldl (fun m e => m.insert e.1 e.2) empty

end NameMap

end FieldRules
