import FieldRules.Proofs.NameMap
import FieldRules.Registry
import Mathlib.Data.List.Nodup

/-!
# Looking rules up

What is found in a registry once something was put into it. The key facts: `Registry.find?_register` and
`Registry.find?_setMessage` (putting in one rule, or its message, changes nothing else), and
`Registry.find?_standard_eq_some_iff` (the standard registry holds the built-in rules and no others).
-/

namespace FieldRules

namespace Registry

variable {r r' : Registry} {n name template : String} {d : RuleDefinition}

theorem ext_of_find? (h : ∀ n, r.find? n = r'.find? n) : r = r' := by
  have hrules : r.rules = r'.rules := NameMap.ext_of_find? h
  cases r
  cases r'
  cases hrules
  rfl

private theorem find?_put (r : Registry) (name : String) (d : RuleDefinition) (h : d.name = name) (n : String) :
    (r.put name d h).find? n = if n = name then some d else r.find? n :=
  r.rules.find?_insert name n d

theorem contains_eq_isSome (r : Registry) (n : String) : r.contains n = (r.find? n).isSome := rfl

theorem contains_of_find? (h : r.find? n = some d) : r.contains n = true := by
  rw [contains_eq_isSome, h, Option.isSome_some]

theorem contains_of_find?_eq_none (h : r.find? n = none) : r.contains n = false := by
  rw [contains_eq_isSome, h, Option.isSome_none]

theorem find?_register (r : Registry) (d : RuleDefinition) (n : String) :
    (r.register d).2.find? n = if n = d.name then some d else r.find? n :=
  r.find?_put d.name d rfl n

/-- Of rules that are registered one after the other, the last one of a name is found. -/
private theorem find?_foldl_register (r : Registry) (ds : List RuleDefinition) (n : String) :
    (ds.foldl (fun r d => (r.register d).2) r).find? n = (ds.reverse.find? fun d => d.name = n).or (r.find? n) := by
  induction ds generalizing r with
  | nil => rfl
  | cons first rest ih =>
    rw [List.foldl_cons, ih, find?_register, List.reverse_cons, List.find?_append, Option.or_assoc]
    by_cases hn : n = first.name
    · simp [hn]
    · simp [hn, Ne.symm hn]

/-- The standard registry holds the built-in rules and no others. -/
theorem find?_standard_eq_some_iff : standard.find? n = some d ↔ d ∈ BuiltIn.definitions ∧ d.name = n := by
  have hempty : empty.find? n = none := rfl
  rw [standard, find?_foldl_register, hempty, Option.or_none]
  constructor
  · intro h
    exact ⟨List.mem_reverse.1 (List.mem_of_find?_eq_some h), by simpa using List.find?_some h⟩
  · rintro ⟨hd, rfl⟩
    have hnames : (BuiltIn.definitions.map (·.name)).Nodup := by decide
    obtain ⟨d', hd'⟩ : ∃ d', BuiltIn.definitions.reverse.find? (fun d' => d'.name = d.name) = some d' := by
      rw [← Option.isSome_iff_exists, List.find?_isSome]
      exact ⟨d, List.mem_reverse.2 hd, by simp⟩
    have hmem := List.mem_reverse.1 (List.mem_of_find?_eq_some hd')
    have hname : d'.name = d.name := by simpa using List.find?_some hd'
    rw [hd', List.inj_on_of_nodup_map hnames hmem hd hname]

theorem mem_definitions_of_find? (h : standard.find? n = some d) : d ∈ BuiltIn.definitions :=
  (find?_standard_eq_some_iff.1 h).1

theorem lookup_of_find? (h : r.find? n = some d) : r.lookup n = .ok d := by
  rw [lookup, h]

theorem lookup_of_find?_eq_none (h : r.find? n = none) : r.lookup n = .error (.unknownRule n) := by
  rw [lookup, h]

theorem lookup_eq_ok_iff : r.lookup n = .ok d ↔ r.find? n = some d := by
  unfold lookup
  cases r.find? n <;> simp

theorem setMessage_of_find? (h : r.find? name = some d) (template : String) :
    r.setMessage name template =
      .ok (r.put name (d.withTemplate template) ((d.name_withTemplate template).trans (name_eq_of_find? h))) := by
  unfold setMessage
  split
  · rename_i d' h'
    obtain rfl : d' = d := Option.some.inj (h'.symm.trans h)
    rfl
  · rename_i h'
    cases h'.symm.trans h

theorem setMessage_of_find?_eq_none (h : r.find? name = none) (template : String) :
    r.setMessage name template = .error (.unknownRule name) := by
  unfold setMessage
  split
  · rename_i h'
    cases h'.symm.trans h
  · rfl

/-- A message is set for one rule, of which nothing else changes. -/
theorem find?_setMessage (h : r.setMessage name template = .ok r') (n : String) :
    r'.find? n = (r.find? n).map fun d => if n = name then { d with template } else d := by
  cases hfind : r.find? name with
  | none =>
    rw [setMessage_of_find?_eq_none hfind] at h
    cases h
  | some d =>
    rw [setMessage_of_find? hfind] at h
    obtain rfl := Except.ok.inj h
    rw [find?_put]
    by_cases hn : n = name
    · subst hn
      rw [if_pos rfl, hfind, Option.map_some, if_pos rfl]
      rfl
    · simp only [hn, if_false, Option.map_id']

theorem contains_setMessage (h : r.setMessage name template = .ok r') (n : String) : r'.contains n = r.contains n := by
  rw [contains_eq_isSome, contains_eq_isSome, find?_setMessage h, Option.isSome_map]

end Registry

end FieldRules
