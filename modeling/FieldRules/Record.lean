import FieldRules.Field

/-!
# Records

A record holds fields of different names in the order in which the names first came. Inserting a field of a name
that is already there replaces the field in its place.
-/

namespace FieldRules

/-- Replaces the field of the same name, or adds the field at the end. -/
def Field.putInto (f : Field) : List Field → List Field
  | [] => [f]
  | g :: rest => if g.name = f.name then f :: rest else g :: f.putInto rest

namespace Field

theorem names_putInto (f : Field) (l : List Field) :
    (f.putInto l).map (·.name) =
      if f.name ∈ l.map (·.name) then l.map (·.name) else l.map (·.name) ++ [f.name] := by
  induction l with
  | nil => simp [putInto]
  | cons g rest ih =>
    unfold putInto
    by_cases h : g.name = f.name
    · simp [h]
    · have h' : ¬ f.name = g.name := fun e => h e.symm
      rw [if_neg h, List.map_cons, ih]
      by_cases hm : f.name ∈ rest.map (·.name)
      · rw [if_pos hm, if_pos (by simp only [List.map_cons, List.mem_cons]; exact .inr hm), List.map_cons]
      · rw [if_neg hm, if_neg (by simp only [List.map_cons, List.mem_cons]; rintro (e | e); exact h' e; exact hm e)]
        rfl

theorem nodup_putInto {f : Field} {l : List Field} (h : (l.map (·.name)).Nodup) :
    ((f.putInto l).map (·.name)).Nodup := by
  rw [names_putInto]
  split
  · exact h
  · rename_i hm
    refine List.nodup_append.2 ⟨h, by simp, ?_⟩
    intro a ha b hb e
    exact hm (by simp at hb; subst hb; exact e ▸ ha)

end Field

structure Record where
  fields : List Field
  distinct : (fields.map (·.name)).Nodup

namespace Record

def empty : Record := ⟨[], by simp⟩

def insert (r : Record) (f : Field) : Record := ⟨f.putInto r.fields, f.nodup_putInto r.distinct⟩

def ofList (fields : List Field) : Record := fields.foldl insert empty

def find? (r : Record) (name : String) : Option Field := r.fields.find? (·.name = name)

def names (r : Record) : List String := r.fields.map (·.name)

def size (r : Record) : Nat := r.fields.length

end Record

end FieldRules
