import FieldRules.Record
import Mathlib.Data.List.Basic

/-!
# Inserting fields

What a record holds once fields were inserted. The key facts: `Record.find?_insert` (a field is found under its name,
and nothing else changes), `Record.find?_ofList` (of fields with one name the last one is found) and
`Record.ofList_fields` (fields of different names keep their order, so that inserting the fields of a record gives the
record back).
-/

namespace FieldRules

private theorem Field.find?_putInto (f : Field) (l : List Field) (n : String) :
    (f.putInto l).find? (·.name = n) = if n = f.name then some f else l.find? (·.name = n) := by
  induction l with
  | nil =>
    by_cases hn : n = f.name
    · simp [putInto, hn]
    · simp [putInto, hn, Ne.symm hn]
  | cons g rest ih =>
    unfold putInto
    by_cases hg : g.name = f.name
    · rw [if_pos hg]
      by_cases hn : n = f.name
      · simp [hn]
      · simp [hn, Ne.symm hn, hg]
    · rw [if_neg hg]
      by_cases hn : g.name = n
      · have hf : n ≠ f.name := hn ▸ hg
        simp [hn, hf]
      · simp [hn, ih]

namespace Record

variable {r r' : Record} {f : Field} {n : String}

theorem name_eq_of_find? (h : r.find? n = some f) : f.name = n := by
  simpa using List.find?_some h

theorem mem_names_iff : n ∈ r.names ↔ (r.find? n).isSome := by
  simp [names, find?]

/-- A field is found under its name, and nothing else changes. -/
theorem find?_insert (r : Record) (f : Field) (n : String) :
    (r.insert f).find? n = if n = f.name then some f else r.find? n :=
  f.find?_putInto r.fields n

/-- Of fields with one name the last one is found. -/
private theorem find?_foldl_insert (r : Record) (fields : List Field) (n : String) :
    (fields.foldl insert r).find? n = (fields.reverse.find? (·.name = n)).or (r.find? n) := by
  induction fields generalizing r with
  | nil => rfl
  | cons f rest ih =>
    rw [List.foldl_cons, ih, find?_insert, List.reverse_cons, List.find?_append, Option.or_assoc]
    by_cases hn : n = f.name
    · simp [hn]
    · simp [hn, Ne.symm hn]

theorem find?_ofList (fields : List Field) (n : String) :
    (ofList fields).find? n = fields.reverse.find? (·.name = n) := by
  rw [ofList, find?_foldl_insert]
  exact Option.or_none

theorem mem_names_ofList_iff {fields : List Field} : n ∈ (ofList fields).names ↔ ∃ f ∈ fields, f.name = n := by
  rw [mem_names_iff, find?_ofList]
  simp

private theorem fields_insert_of_new (h : f.name ∉ r.names) : (r.insert f).fields = r.fields ++ [f] := by
  have hput (l : List Field) (hl : f.name ∉ l.map (·.name)) : f.putInto l = l ++ [f] := by
    induction l with
    | nil => rfl
    | cons g rest ih =>
      have hg : g.name ≠ f.name := fun e => hl (e ▸ List.mem_cons_self)
      have hrest : f.name ∉ rest.map (·.name) := fun hmem => hl (List.mem_cons_of_mem _ hmem)
      rw [Field.putInto, if_neg hg, ih hrest, List.cons_append]
  exact hput r.fields h

private theorem fields_foldl_insert {fields : List Field} (h : ((r.fields ++ fields).map (·.name)).Nodup) :
    (fields.foldl insert r).fields = r.fields ++ fields := by
  induction fields generalizing r with
  | nil => simp
  | cons f rest ih =>
    have hnew : f.name ∉ r.names := by
      rw [List.map_append, List.map_cons] at h
      intro hmem
      exact (List.nodup_append.1 h).2.2 _ hmem _ List.mem_cons_self rfl
    have hfields := fields_insert_of_new hnew
    rw [List.foldl_cons, ih, hfields, List.append_assoc, List.singleton_append]
    rwa [hfields, List.append_assoc, List.singleton_append]

private theorem ext_fields (h : r.fields = r'.fields) : r = r' := by
  cases r
  cases r'
  cases h
  rfl

private theorem fields_ofList {fields : List Field} (h : (fields.map (·.name)).Nodup) :
    (ofList fields).fields = fields :=
  fields_foldl_insert (r := empty) h

theorem ofList_fields (r : Record) : ofList r.fields = r := ext_fields (fields_ofList r.distinct)

end Record

end FieldRules
