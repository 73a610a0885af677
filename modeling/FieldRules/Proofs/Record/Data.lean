import FieldRules.Proofs.Record.Description
import FieldRules.Proofs.Record.Entries
import FieldRules.Proofs.Text.Bytes
import FieldRules.Session

/-!
# Records read out of data

Data has the members of a map in the order of their names, of each name the last. The key facts:
`Record.ofData_of_entries` (the record that is read out of it has the fields in this order) and
`Record.readAlike_inOrder` (it is the record that is read from the text itself, but for the order of the fields).
-/

namespace FieldRules.Record

open Json

section InOrder

variable {fields : List Field}

/-- Fields under their names. -/
private def named (fields : List Field) : List (String × Field) := fields.map fun f => (f.name, f)

private theorem name_of_mem_named {e : String × Field} (h : e ∈ named fields) : e.2.name = e.1 := by
  obtain ⟨f, -, rfl⟩ := List.mem_map.1 h
  rfl

private theorem name_of_mem_entries {e : String × Field} (h : e ∈ (NameMap.ofList (named fields)).entries) :
    e.2.name = e.1 :=
  name_of_mem_named (NameMap.mem_of_mem_entries_ofList h)

private theorem names_entries (fields : List Field) :
    ((NameMap.ofList (named fields)).entries.map (·.2)).map (·.name) = (NameMap.ofList (named fields)).names := by
  rw [List.map_map]
  exact List.map_congr_left fun e he => name_of_mem_entries he

/-- The fields in the order of their names, of each name the last. -/
def inOrder (fields : List Field) : Record where
  fields := (NameMap.ofList (named fields)).entries.map (·.2)
  distinct := by
    rw [names_entries]
    exact NameMap.nodup_names _

private theorem find?_map_snd {l : List (String × Field)} (h : ∀ e ∈ l, e.2.name = e.1) (name : String) :
    (l.map (·.2)).find? (·.name = name) = l.lookup name := by
  induction l with
  | nil => rfl
  | cons e rest ih =>
    obtain ⟨he, hrest⟩ := List.forall_mem_cons.1 h
    rw [List.map_cons, List.find?_cons, ih hrest, NameMap.lookup_cons, he]
    by_cases hname : e.1 = name
    · simp [hname]
    · simp [hname, Ne.symm hname]

/-- They are found as the fields are that are inserted one by one. -/
private theorem find?_inOrder (fields : List Field) (name : String) :
    (inOrder fields).find? name = (ofList fields).find? name := by
  have hnamed : (named fields).reverse.map (·.2) = fields.reverse := by
    simp [named, List.map_reverse, Function.comp_def]
  rw [find?_ofList, ← hnamed, find?_map_snd fun e he => name_of_mem_named (List.mem_reverse.1 he), ← NameMap.find?_ofList]
  exact find?_map_snd (fun e he => name_of_mem_entries he) name

private theorem names_inOrder_sorted (fields : List Field) :
    (inOrder fields).names.Pairwise fun a b => Text.bytes a < Text.bytes b := by
  have hnames : (inOrder fields).names = (NameMap.ofList (named fields)).names := names_entries fields
  rw [hnames]
  exact List.pairwise_map.2 ((NameMap.ofList (named fields)).sorted.imp Text.bytes_lt_iff.2)

private theorem names_inOrder_perm (fields : List Field) : (inOrder fields).names.Perm (ofList fields).names := by
  refine (List.perm_ext_iff_of_nodup (inOrder fields).distinct (ofList fields).distinct).2 ?_
  intro name
  change name ∈ (inOrder fields).names ↔ name ∈ (ofList fields).names
  rw [mem_names_iff, mem_names_iff, find?_inOrder]

end InOrder

/-! ### Members in order -/

section Members

variable {budget : Nat} {members : List (Document × Document)} {fields : List Field}

private theorem related_of_entries (hkeyed : ∀ m ∈ members, m.2.Keyed) (hbudget : budget ≤ 128)
    (h : List.Forall₂ (IsEntry budget) members fields) :
    NameMap.Related (fun name d f => (d.node? 128).bind (Entry.field? name) = some f)
      (Document.tabulatedMembers members) (named fields) := by
  induction h with
  | nil => exact .nil
  | @cons m f rest others hm hrest ih =>
    obtain ⟨key, d⟩ := m
    obtain ⟨hd, hothers⟩ := List.forall_mem_cons.1 hkeyed
    obtain ⟨name, rfl, hfield⟩ := hm
    obtain ⟨n, hn, hf⟩ := Option.bind_eq_some_iff.1 hfield
    refine .cons ⟨(Entry.name_of_field? hf).symm, ?_⟩ (ih hothers)
    exact Option.bind_eq_some_iff.2
      ⟨n.tabulated, hd.node?_tabulated hn hbudget, Entry.field?_tabulated (hd.keyed_node hn) hf⟩

/-- Out of data the fields are read in the order of their names. -/
theorem ofData_of_entries (hkeyed : ∀ m ∈ members, m.2.Keyed) (hbudget : budget ≤ 128)
    (h : List.Forall₂ (IsEntry budget) members fields) : ofData (.map members true) = .ok (inOrder fields) := by
  have hrelated := (related_of_entries hkeyed hbudget h).entries_ofList
  refine readJson_eq_ok_iff.2 ⟨by decide, _, rfl, (inOrder fields).fields, ?_, ofList_fields _⟩
  rw [inOrder, List.forall₂_map_left_iff, List.forall₂_map_right_iff]
  exact hrelated.imp fun e e' h => ⟨e.1, rfl, h.2⟩

private theorem exists_memberNodes? (h : List.Forall₂ (IsEntry budget) members fields) :
    ∃ entries, Document.memberNodes? budget members = some entries := by
  simp only [Document.memberNodes?_eq_some_iff]
  induction h with
  | nil => exact ⟨[], .nil⟩
  | cons hm _ ih =>
    obtain ⟨name, hkey, hfield⟩ := hm
    obtain ⟨n, hn, -⟩ := Option.bind_eq_some_iff.1 hfield
    obtain ⟨entries, hentries⟩ := ih
    refine ⟨(.string name, n) :: entries, .cons ⟨?_, hn⟩ hentries⟩
    rw [hkey]
    rfl

private theorem key_of_isEntry {m : Document × Document} {f : Field} (h : IsEntry budget m f) :
    m.1 = .string (some f.name) := by
  obtain ⟨name, hkey, hfield⟩ := h
  obtain ⟨n, -, hf⟩ := Option.bind_eq_some_iff.1 hfield
  rw [hkey, Entry.name_of_field? hf]

/-- Of members with one name the last one is found. -/
theorem find?_last_entry {before after : List (Document × Document)} {name : String} {d : Document}
    (h : List.Forall₂ (IsEntry budget) (before ++ (.string (some name), d) :: after) fields)
    (hlast : ∀ m ∈ after, m.1 ≠ .string (some name)) :
    ∃ f, IsEntry budget (.string (some name), d) f ∧ (ofList fields).find? name = some f := by
  obtain ⟨first, f, others, -, hf, hothers, rfl⟩ := forall₂_append_cons_iff.1 h
  refine ⟨f, hf, ?_⟩
  have hname : f.name = name := by
    have hkey := key_of_isEntry hf
    simpa using hkey.symm
  have hlater : List.Forall₂ (fun _ g => g.name ≠ name) after others := by
    refine ((List.forall₂_and_left _ _).2 ⟨hlast, hothers⟩).imp ?_
    rintro m g ⟨hm, hg⟩ rfl
    exact hm (key_of_isEntry hg)
  have hnone : others.reverse.find? (·.name = name) = none := by
    rw [List.find?_eq_none]
    intro g hg
    simpa using forall_of_forall₂ hlater g (List.mem_reverse.1 hg)
  rw [find?_ofList, List.reverse_append, List.reverse_cons, List.append_assoc, List.find?_append, hnone]
  simp [hname]

private theorem mem_names_iff_mem_keys (h : List.Forall₂ (IsEntry budget) members fields) {name : String} :
    name ∈ (ofList fields).names ↔ ∃ d, (.string (some name), d) ∈ members := by
  rw [mem_names_ofList_iff]
  induction h with
  | nil => simp
  | @cons m f _ _ hm _ ih =>
    obtain ⟨key, d⟩ := m
    obtain rfl : key = .string (some f.name) := key_of_isEntry hm
    simp [← ih, exists_or, eq_comm]


/-- What a record `r'` that is read out of data has in common with the record `r` that is read from the same members in
the order of the text: in both the last member of a name stands, and `r'` differs in the order of its fields only. -/
structure ReadAlike (members : List (Document × Document)) (r r' : Record) : Prop where
  mem_names : ∀ name, name ∈ r.names ↔ ∃ d, (.string (some name), d) ∈ members
  find?_last : ∀ before name d after, members = before ++ (.string (some name), d) :: after →
    (∀ m ∈ after, m.1 ≠ .string (some name)) → ∃ f, IsEntry 127 (.string (some name), d) f ∧ r.find? name = some f
  find?_eq : ∀ name, r'.find? name = r.find? name
  names_perm : r'.names.Perm r.names
  names_sorted : r'.names.Pairwise fun a b => Text.bytes a < Text.bytes b
  sessions : ∀ registry specs,
    (Session.mk r'.find? registry specs).evaluate = (Session.mk r.find? registry specs).evaluate ∧
    (Session.mk r'.find? registry specs).report = (Session.mk r.find? registry specs).report ∧
    (Session.mk r'.find? registry specs).run = (Session.mk r.find? registry specs).run

theorem readAlike_inOrder (h : List.Forall₂ (IsEntry 127) members fields) :
    ReadAlike members (ofList fields) (inOrder fields) where
  mem_names _ := mem_names_iff_mem_keys h
  find?_last := by
    rintro before name d after rfl hlast
    exact find?_last_entry h hlast
  find?_eq := find?_inOrder fields
  names_perm := names_inOrder_perm fields
  names_sorted := names_inOrder_sorted fields
  sessions registry specs := by
    have hsource : (inOrder fields).find? = (ofList fields).find? := funext (find?_inOrder fields)
    rw [hsource]
    exact ⟨rfl, rfl, rfl⟩

end Members

/-- A text that is read as a record is also read as data, and the record is read out of the data as well. -/
theorem ofData_agrees {text : String} {r : Record} (h : ofText text = .ok r) :
    ∃ members r', readDocument text = .ok (.map members true) ∧ ofData (.map members true) = .ok r' ∧
      ReadAlike members r r' := by
  obtain ⟨hread, hend⟩ := readWhole_eq_ok_iff.1 h
  obtain ⟨-, members, hdocument, fields, hentries, rfl⟩ := readJson_eq_ok_iff.1 hread
  have hkeyed : ∀ m ∈ members, m.2.Keyed := by
    have hmap : (Document.map members true).Keyed := hdocument ▸ Document.keyed_read text
    cases hmap with
    | map _ hvalues => exact hvalues
  obtain ⟨entries, hnodes⟩ := exists_memberNodes? hentries
  have hnode : (Document.map members true).node? 128 = some (.map entries) :=
    Document.node?_map_eq_some_iff.2 ⟨⟨rfl, by decide⟩, entries, hnodes, rfl⟩
  refine ⟨members, inOrder fields, ?_, ofData_of_entries hkeyed (by decide) hentries, readAlike_inOrder hentries⟩
  exact readDocument_eq_ok_iff.2 ⟨Prod.ext hdocument hend, by rw [hnode]; rfl⟩

private def sample : String :=
  "\x7b\"b\":\"x\",\"a\":7,\"b\":\x7b\"value\":null,\"kind\":\"radio\",\"note\":[true]\x7d\x7d"

private theorem scan_sample : Token.scan sample.toList =
    [.openMap, .string (some "b"), .colon, .string (some "x"), .comma,
      .string (some "a"), .colon, .number ⟨false, ['7'], [], none⟩, .comma,
      .string (some "b"), .colon, .openMap, .string (some "value"), .colon, .null, .comma,
        .string (some "kind"), .colon, .string (some "radio"), .comma,
        .string (some "note"), .colon, .openList, .bool true, .closeList, .closeMap, .closeMap] := by
  decide +kernel

/-- The name `b` comes twice in the text: it stays in the first place, and out of data it comes behind `a`. -/
theorem ofData_agrees_repeated_name :
    let r := ofList [.text "b" "x", .text "a" "7", { name := "b", kind := .radio }]
    ofText sample = .ok r ∧ r.names = ["b", "a"] ∧
      ∃ members r', readDocument sample = .ok (.map members true) ∧ ofData (.map members true) = .ok r' ∧
        r'.find? "b" = some { name := "b", kind := .radio } ∧ r'.find? "a" = some (.text "a" "7") := by
  intro r
  have htext : ofText sample = .ok r := by
    refine readWhole_eq_ok_iff.2 ?_
    rw [Document.read, scan_sample]
    refine ⟨readJson_eq_ok_iff.2 ⟨by decide, _, rfl, _, ?_, rfl⟩, rfl⟩
    exact .cons ⟨"b", rfl, by decide +kernel⟩
      (.cons ⟨"a", rfl, by decide +kernel⟩ (.cons ⟨"b", rfl, by decide +kernel⟩ .nil))
  obtain ⟨members, r', hdocument, hdata, halike⟩ := ofData_agrees htext
  refine ⟨htext, by decide, members, r', hdocument, hdata, ?_, ?_⟩
  · rw [halike.find?_eq]
    decide
  · rw [halike.find?_eq]
    decide

end FieldRules.Record
