import FieldRules.Proofs.Json.Tabulated
import FieldRules.Record.Entry

/-!
# Descriptions of a field

A map describes a field when each part is given at most once and reads as what the field has there; parts that are not
given stay as they were. The key facts: `Entry.ofEntries?_eq_some_iff` (this is when a description is taken) and
`Entry.field?_tabulated` (data that stands for a field still does so when its keys are put in order).
-/

namespace FieldRules.Entry

open Data (Node)

namespace Part

/-- What a field has in one of its parts. -/
inductive Content where
  | kind (kind : FieldKind)
  | value (value : Option String)
  | checked (checked : Option Bool)

def of (p : Part) (f : Field) : Content :=
  match p with
  | .kind => .kind f.kind
  | .value => .value f.value
  | .checked => .checked f.checked

def read? (p : Part) (n : Node) : Option Content :=
  match p with
  | .kind => (kind? n).map .kind
  | .value => (value? n).map .value
  | .checked => (checked? n).map .checked

def key : Part → String
  | .kind => "kind"
  | .value => "value"
  | .checked => "checked"

/-- How a field `g` has a part when `f` had it before and some data is given for it. -/
def ReadAs (p : Part) (taken : List Part) (f g : Field) : List Node → Prop
  | [] => p.of g = p.of f
  | [n] => p ∉ taken ∧ p.read? n = some (p.of g)
  | _ => False

/-- What is given of a part, in order. -/
def given (p : Part) (entries : List (Node × Node)) : List Node :=
  entries.filterMap fun e => if part? e.1 = some (some p) then some e.2 else none

end Part

section Parts

variable {f g : Field} {p : Part} {n : Node} {taken : List Part} {entries : List (Node × Node)}

private theorem Part.forall_iff {P : Part → Prop} : (∀ p, P p) ↔ P .kind ∧ P .value ∧ P .checked := by
  constructor
  · intro h
    exact ⟨h .kind, h .value, h .checked⟩
  · rintro ⟨hkind, hvalue, hchecked⟩ p
    cases p <;> assumption

private theorem ext_parts_iff : f = g ↔ g.name = f.name ∧ ∀ p : Part, p.of g = p.of f := by
  obtain ⟨name, kind, value, checked⟩ := f
  obtain ⟨name', kind', value', checked'⟩ := g
  simp [Part.forall_iff, Part.of, eq_comm]

/-- Taking a part in reads it and changes nothing else. -/
private theorem take?_eq_some_iff :
    take? f p n = some g ↔ g.name = f.name ∧ p.read? n = some (p.of g) ∧ ∀ q ≠ p, q.of g = q.of f := by
  obtain ⟨name', kind', value', checked'⟩ := g
  cases p <;> simp [take?, Part.read?, Part.forall_iff, Part.of] <;> grind

private theorem given_cons_of_part {key : Node} {q : Part} (h : part? key = some (some q)) :
    p.given ((key, n) :: entries) = if q = p then n :: p.given entries else p.given entries := by
  by_cases hp : q = p
  · simp [Part.given, h, hp]
  · simp [Part.given, h, hp]

private theorem given_cons_of_other {key : Node} (h : part? key = some none) :
    p.given ((key, n) :: entries) = p.given entries := by
  simp [Part.given, h]

private theorem exists_take?_of_readAs {ns : List Node} (h : p.ReadAs taken f g (n :: ns)) :
    ∃ f', take? f p n = some f' := by
  cases ns with
  | nil =>
    obtain ⟨-, hread⟩ := h
    cases p <;> simp only [Part.read?, Option.map_eq_some_iff] at hread <;>
      obtain ⟨x, hx, -⟩ := hread <;> simp [take?, hx]
  | cons m ms => cases h

/-- Once a part is taken in, it is read there and not given again, and the others are read as before. -/
private theorem readAs_taken {f' : Field} {q : Part} {ns : List Node} (hread : q.read? n = some (q.of f'))
    (hkeep : ∀ p ≠ q, p.of f' = p.of f) (hq : q ∉ taken) :
    p.ReadAs (q :: taken) f' g ns ↔ p.ReadAs taken f g (if q = p then n :: ns else ns) := by
  by_cases hp : q = p
  · subst hp
    rw [if_pos rfl]
    cases ns with
    | nil => simp [Part.ReadAs, hread, hq, eq_comm]
    | cons m ms => cases ms <;> simp [Part.ReadAs]
  · have hp' : p ≠ q := Ne.symm hp
    rw [if_neg hp]
    obtain _ | ⟨m, _ | _⟩ := ns <;> simp [Part.ReadAs, hkeep p hp', hp']

/-- A map is taken as a description exactly when its keys can name parts, and each part is given at most once and read,
unless it was taken before. -/
theorem ofEntries?_eq_some_iff :
    ofEntries? f taken entries = some g ↔
      (∀ e ∈ entries, (part? e.1).isSome) ∧ g.name = f.name ∧ ∀ p : Part, p.ReadAs taken f g (p.given entries) := by
  induction entries generalizing f taken with
  | nil => simp [ofEntries?, ext_parts_iff, Part.given, Part.ReadAs]
  | cons e rest ih =>
    obtain ⟨key, n⟩ := e
    rw [ofEntries?, List.forall_mem_cons]
    cases hkey : part? key with
    | none => simp
    | some named =>
      cases named with
      | none => simp [ih, given_cons_of_other hkey]
      | some q =>
        simp only [given_cons_of_part hkey, Option.bind_eq_bind, Option.bind_some, Option.isSome_some, true_and]
        by_cases hq : q ∈ taken
        -- a part that was taken before is refused, and cannot be read as given either
        · have hnot : ¬ q.ReadAs taken f g (n :: q.given rest) := by
            cases q.given rest <;> simp [Part.ReadAs, hq]
          rw [if_pos (List.contains_iff_mem.2 hq)]
          refine iff_of_false (by simp) ?_
          rintro ⟨-, -, hparts⟩
          exact hnot (by simpa using hparts q)
        · rw [if_neg (mt List.contains_iff_mem.1 hq), Option.bind_eq_some_iff]
          constructor
          · rintro ⟨f', htake, hrest⟩
            obtain ⟨hname, hread, hkeep⟩ := take?_eq_some_iff.1 htake
            obtain ⟨hkeys, hname', hparts⟩ := ih.1 hrest
            exact ⟨hkeys, hname'.trans hname, fun p => (readAs_taken hread hkeep hq).1 (hparts p)⟩
          · rintro ⟨hkeys, hname, hparts⟩
            obtain ⟨f', htake⟩ := exists_take?_of_readAs (by simpa using hparts q)
            obtain ⟨hname', hread, hkeep⟩ := take?_eq_some_iff.1 htake
            exact ⟨f', htake, ih.2 ⟨hkeys, hname.trans hname'.symm,
              fun p => (readAs_taken hread hkeep hq).2 (hparts p)⟩⟩

/-- The field that an entry stands for has the name of the entry. -/
theorem name_of_field? {name : String} (h : field? name n = some f) : f.name = name := by
  have hitems {g : Field} {parts : List Part} {items : List Node} (hg : ofItems? g parts items = some f) :
      f.name = g.name := by
    induction items generalizing g parts with
    | nil =>
      rw [ofItems?] at hg
      cases hg
      rfl
    | cons n rest ih =>
      cases parts with
      | nil => cases hg
      | cons p parts =>
        obtain ⟨f', htake, hrest⟩ := Option.bind_eq_some_iff.1 hg
        exact (ih hrest).trans (take?_eq_some_iff.1 htake).1
  cases n with
  | list items => exact hitems h
  | map entries => exact (ofEntries?_eq_some_iff.1 h).2.1
  | _ =>
    cases h
    rfl

end Parts

/-! ### Keys in order -/

section Tabulated

variable {f g : Field} {p : Part} {n : Node} {entries : List (Node × Node)}

private theorem part?_string_iff {k : String} : part? (.string k) = some (some p) ↔ k = p.key := by
  simp only [part?, Option.some.injEq]
  cases p <;> simp only [Part.key] <;> split_ifs <;> simp_all

private theorem kind?_tabulated {kind : FieldKind} (hkeyed : n.Keyed) (h : kind? n = some kind) :
    kind? n.tabulated = some kind := by
  unfold kind? at h
  split at h
  · exact h
  · exact h
  · cases hkeyed with
    | map hkeys _ =>
      obtain ⟨k, hk⟩ := hkeys _ List.mem_cons_self
      cases hk
  · cases h

private theorem read?_tabulated {c : Part.Content} (hkeyed : n.Keyed) (h : p.read? n = some c) :
    p.read? n.tabulated = some c := by
  cases p with
  | kind =>
    obtain ⟨kind, hkind, rfl⟩ := Option.map_eq_some_iff.1 h
    exact Option.map_eq_some_iff.2 ⟨kind, kind?_tabulated hkeyed hkind, rfl⟩
  | value | checked => cases n <;> exact h

private theorem ofItems?_tabulated {parts : List Part} {items : List Node} (hkeyed : ∀ n ∈ items, n.Keyed)
    (h : ofItems? f parts items = some g) : ofItems? f parts (Node.tabulatedItems items) = some g := by
  induction items generalizing f parts with
  | nil => exact h
  | cons n rest ih =>
    obtain ⟨hn, hrest⟩ := List.forall_mem_cons.1 hkeyed
    cases parts with
    | nil => cases h
    | cons p parts =>
      obtain ⟨f', htake, hitems⟩ := Option.bind_eq_some_iff.1 h
      obtain ⟨hname, hread, hkeep⟩ := take?_eq_some_iff.1 htake
      have htake' : take? f p n.tabulated = some f' := take?_eq_some_iff.2 ⟨hname, read?_tabulated hn hread, hkeep⟩
      exact Option.bind_eq_some_iff.2 ⟨f', htake', ih hrest hitems⟩

private theorem given_string (l : List (String × Node)) :
    p.given (l.map fun (k, v) => (.string k, v)) = NameMap.valuesOf l p.key := by
  rw [Part.given, List.filterMap_map, NameMap.valuesOf]
  refine List.filterMap_congr ?_
  rintro ⟨k, v⟩ -
  simp only [Function.comp_apply, part?_string_iff]

private theorem valuesOf_tabulatedEntries (hkeys : ∀ e ∈ entries, ∃ k, e.1 = .string k) :
    NameMap.valuesOf (Node.tabulatedEntries entries) p.key = (p.given entries).map Node.tabulated := by
  induction entries with
  | nil => rfl
  | cons e rest ih =>
    obtain ⟨⟨k, hk⟩, hrest⟩ := List.forall_mem_cons.1 hkeys
    obtain ⟨key, v⟩ := e
    obtain rfl : key = .string k := hk
    rw [Node.tabulatedEntries, NameMap.valuesOf_cons, ih hrest]
    simp only [Part.given, List.filterMap_cons, part?_string_iff]
    split_ifs <;> rfl

private theorem readAs_tabulated {ns : List Node} (hkeyed : ∀ n ∈ ns, n.Keyed) (h : p.ReadAs [] f g ns) :
    p.ReadAs [] f g (ns.map Node.tabulated).getLast?.toList := by
  obtain _ | ⟨n, _ | _⟩ := ns
  · exact h
  · exact ⟨h.1, read?_tabulated (hkeyed n List.mem_cons_self) h.2⟩
  · cases h

/-- Data that stands for a field still does so when its keys are put in order. -/
theorem field?_tabulated {name : String} (hkeyed : n.Keyed) (h : field? name n = some f) :
    field? name n.tabulated = some f := by
  cases hkeyed with
  | null | bool _ | number _ | string _ => exact h
  | list hitems => exact ofItems?_tabulated hitems h
  | @map entries hkeys hvalues =>
    obtain ⟨-, hname, hparts⟩ := ofEntries?_eq_some_iff.1 h
    refine ofEntries?_eq_some_iff.2 ⟨?_, hname, ?_⟩
    · intro e he
      obtain ⟨⟨k, v⟩, -, rfl⟩ := List.mem_map.1 he
      rfl
    -- each part is given at most once, so that the last one given is the one that was read
    · intro p
      rw [given_string, NameMap.valuesOf_entries_ofList, valuesOf_tabulatedEntries hkeys]
      refine readAs_tabulated ?_ (hparts p)
      intro n hn
      obtain ⟨e, he, hen⟩ := List.mem_filterMap.1 hn
      obtain ⟨-, hvalue⟩ := Option.ite_none_right_eq_some.1 hen
      obtain rfl := Option.some.inj hvalue
      exact hvalues e he

end Tabulated

end FieldRules.Entry
