import FieldRules.Proofs.Record.Entries
import FieldRules.Proofs.Session.Lookup
import FieldRules.Record.Yaml
import Mathlib.Data.Finset.Card

/-!
# Records by what was inserted

What a record holds, told by the fields that were inserted from the empty record on, one by one or in reading a text.
The key facts: `Record.names_insert` (a name keeps the place of its first field), `Record.Inserted.holds` (the field at
this place is the last one of the name) and `Record.inserted_in_order`.
-/

namespace FieldRules.Record

/-- A record that fields were inserted into in this order, the empty record at first. -/
inductive Inserted : List Field → Record → Prop
  | empty : Inserted [] .empty
  | insert {fields : List Field} {r : Record} (f : Field) : Inserted fields r → Inserted (fields ++ [f]) (r.insert f)

/-- What a record holds when fields were inserted into it. -/
structure Holds (fields : List Field) (r : Record) : Prop where
  /-- Each name once, in the order in which the names first came. -/
  names_eq : r.names = (fields.map (·.name)).eraseDups
  /-- Under each of them the last field of this name. -/
  fields_eq : r.fields.map some = r.names.map (Field.latest fields)
  find?_eq : ∀ name, r.find? name = Field.latest fields name
  name_of_find? : ∀ name f, r.find? name = some f → f.name = name
  find?_eq_none : ∀ name, (∀ f ∈ fields, f.name ≠ name) → r.find? name = none
  size_eq : r.size = (fields.map (·.name)).toFinset.card

/-! ### Inserting -/

section Inserting

variable {fields : List Field} {r : Record} {f : Field}

/-- A name that is there keeps its place, and a new one comes last. -/
theorem names_insert (r : Record) (f : Field) :
    (r.insert f).names = if f.name ∈ r.names then r.names else r.names ++ [f.name] := f.names_putInto r.fields

private theorem eraseDups_concat {α : Type} [BEq α] [LawfulBEq α] (l : List α) (a : α) [Decidable (a ∈ l)] :
    (l ++ [a]).eraseDups = if a ∈ l then l.eraseDups else l.eraseDups ++ [a] := by
  by_cases h : a ∈ l
  · simp [List.eraseDups_append, List.removeAll, h]
  · simp [List.eraseDups_append, List.eraseDups_cons, List.removeAll, h]

/-- The field of a name is found under this name. -/
private theorem find?_of_mem (h : f ∈ r.fields) : r.find? f.name = some f := by
  obtain ⟨before, after, hfields⟩ := List.append_of_mem h
  have hdistinct := r.distinct
  rw [hfields, List.map_append, List.map_cons, List.nodup_append] at hdistinct
  have hbefore : before.find? (·.name = f.name) = none := by
    rw [List.find?_eq_none]
    intro g hg
    simpa using hdistinct.2.2 g.name (List.mem_map_of_mem hg) f.name List.mem_cons_self
  simp [find?, hfields, List.find?_append, hbefore]

private theorem Inserted.ofList_eq (h : Inserted fields r) : ofList fields = r := by
  induction h with
  | empty => rfl
  | insert f _ ih => rw [ofList, List.foldl_concat, ← ofList, ih]

private theorem inserted_ofList (fields : List Field) : Inserted fields (ofList fields) := by
  induction fields using List.reverseRecOn with
  | nil => exact .empty
  | append_singleton fields f ih =>
    rw [ofList, List.foldl_concat]
    exact .insert f ih

private theorem inserted_iff : Inserted fields r ↔ ofList fields = r := by
  constructor
  · exact Inserted.ofList_eq
  · rintro rfl
    exact inserted_ofList fields

private theorem Inserted.names_eq (h : Inserted fields r) : r.names = (fields.map (·.name)).eraseDups := by
  induction h with
  | empty => rfl
  | insert f _ ih =>
    rw [names_insert, List.map_append, List.map_singleton, eraseDups_concat, ih]
    simp only [List.mem_eraseDups]

theorem Inserted.holds (h : Inserted fields r) : Holds fields r := by
  have hfind (name : String) : r.find? name = Field.latest fields name := by
    rw [← h.ofList_eq]
    exact find?_ofList_eq_latest fields name
  refine ⟨h.names_eq, ?_, hfind, fun name f => name_eq_of_find?, ?_, ?_⟩
  · rw [names, List.map_map]
    exact List.map_congr_left fun f hf => (find?_of_mem hf).symm.trans (hfind f.name)
  · intro name hnone
    rw [hfind, Field.latest, List.getLast?_eq_none_iff, List.filter_eq_nil_iff]
    simpa using hnone
  · have hnames : r.names.toFinset = (fields.map (·.name)).toFinset := by
      ext name
      rw [h.names_eq, List.mem_toFinset, List.mem_toFinset, List.mem_eraseDups]
    have hdistinct : r.names.Nodup := r.distinct
    rw [← hnames, List.toFinset_card_of_nodup hdistinct, names, List.length_map, size]

end Inserting

/-! ### Reading -/

section Reading

variable {r : Record}

/-- An entry of a YAML map that stands for a field. -/
def IsYamlEntry (e : Yaml.Tree × Yaml.Tree) (f : Field) : Prop :=
  ∃ name node, e.1.text? = some name ∧ e.2.node? = some node ∧ Entry.field? name node = some f

private theorem insertYaml?_eq_some_iff {r r' : Record} {entries : List (Yaml.Tree × Yaml.Tree)} :
    insertYaml? r entries = some r' ↔
      ∃ fields, List.Forall₂ IsYamlEntry entries fields ∧ fields.foldl insert r = r' := by
  induction entries generalizing r with
  | nil => simp [insertYaml?]
  | cons e rest ih =>
    obtain ⟨key, t⟩ := e
    simp only [insertYaml?, List.forall₂_cons_left_iff, Option.bind_eq_bind, Option.bind_eq_some_iff, ih, IsYamlEntry]
    constructor
    · rintro ⟨name, hname, node, hnode, f, hf, fields, hrest, rfl⟩
      exact ⟨f :: fields, ⟨f, fields, ⟨name, node, hname, hnode, hf⟩, hrest, rfl⟩, rfl⟩
    · rintro ⟨_, ⟨f, fields, ⟨name, node, hname, hnode, hf⟩, hrest, rfl⟩, rfl⟩
      exact ⟨name, hname, node, hnode, f, hf, fields, hrest, rfl⟩

private theorem ofYaml?_eq_some_iff {t : Yaml.Tree} :
    ofYaml? t = some r ↔
      ∃ entries fields, t.entries? = some entries ∧ List.Forall₂ IsYamlEntry entries fields ∧ Inserted fields r := by
  simp only [ofYaml?, Option.bind_eq_bind, Option.bind_eq_some_iff, insertYaml?_eq_some_iff, inserted_iff, ofList,
    exists_and_left]

private theorem exists_of_forall₂ {α β : Type} {R : α → β → Prop} {l : List α} {l' : List β}
    (h : List.Forall₂ R l l') {a : α} (ha : a ∈ l) : ∃ b, R a b := by
  induction h with
  | nil => cases ha
  | cons hab _ ih =>
    rcases List.mem_cons.1 ha with rfl | ha
    · exact ⟨_, hab⟩
    · exact ih ha

/-- One member that is no entry spoils the text, whatever stands before and behind it. -/
private theorem exists_ofText_eq_error {text : String} {members : List (Json.Document × Json.Document)} {closed : Bool}
    {m : Json.Document × Json.Document} (hread : (Json.Document.read text).1 = .map members closed) (hm : m ∈ members)
    (hbad : ∀ f, ¬ IsEntry 127 m f) : ∃ fault, ofText text = .error fault := by
  cases hresult : ofText text with
  | error fault => exact ⟨fault, rfl⟩
  | ok r =>
    obtain ⟨members', fields, hread', hentries, -⟩ := ofText_eq_ok_iff.1 hresult
    rw [hread', Json.Document.map.injEq] at hread
    obtain ⟨f, hf⟩ := exists_of_forall₂ hentries (hread.1 ▸ hm)
    exact absurd hf (hbad f)

private theorem ofYaml?_eq_none {t : Yaml.Tree} {entries : List (Yaml.Tree × Yaml.Tree)} {e : Yaml.Tree × Yaml.Tree}
    (hentries : t.entries? = some entries) (he : e ∈ entries) (hbad : ∀ f, ¬ IsYamlEntry e f) : ofYaml? t = none := by
  rw [Option.eq_none_iff_forall_ne_some]
  intro r hresult
  obtain ⟨entries', fields, hentries', hfields, -⟩ := ofYaml?_eq_some_iff.1 hresult
  obtain rfl := Option.some.inj (hentries.symm.trans hentries')
  obtain ⟨f, hf⟩ := exists_of_forall₂ hfields he
  exact hbad f hf

end Reading

/-- A record is a map in the order of insertion. Whatever fields were inserted into the empty record, one after another
or as a list, each name stands where it first came and under it the last field of this name, which is the one that is
found. A text, JSON or YAML, is read as a record when each of its members stands for a field, and then as the record
into which these fields are inserted in the order of the text; with one member that stands for none it is not read. -/
theorem inserted_in_order :
    (∀ fields r, Inserted fields r → Holds fields r) ∧
    (∀ fields, Inserted fields (ofList fields)) ∧
    (∀ text r, ofText text = .ok r ↔
      ∃ members fields, Json.Document.read text = (.map members true, true) ∧
        List.Forall₂ (IsEntry 127) members fields ∧ Inserted fields r) ∧
    (∀ text members closed, (Json.Document.read text).1 = .map members closed →
      ∀ m ∈ members, (∀ f, ¬ IsEntry 127 m f) → ∃ fault, ofText text = .error fault) ∧
    (∀ t r, ofYaml? t = some r ↔
      ∃ entries fields, t.entries? = some entries ∧ List.Forall₂ IsYamlEntry entries fields ∧ Inserted fields r) ∧
    (∀ t entries, t.entries? = some entries → ∀ e ∈ entries, (∀ f, ¬ IsYamlEntry e f) → ofYaml? t = none) :=
  ⟨fun _ _ => Inserted.holds, inserted_ofList, fun _ _ => by simp only [ofText_eq_ok_iff, inserted_iff],
    fun _ _ _ hread _ hm => exists_ofText_eq_error hread hm, fun _ _ => ofYaml?_eq_some_iff,
    fun _ _ hentries _ he => ofYaml?_eq_none hentries he⟩

private theorem scan_repeated : Json.Token.scan "\x7b\"b\":\"x\",\"a\":\"\",\"b\":true\x7d".toList =
    [.openMap, .string (some "b"), .colon, .string (some "x"), .comma, .string (some "a"), .colon, .string (some ""),
      .comma, .string (some "b"), .colon, .bool true, .closeMap] := by
  decide +kernel

private theorem scan_list : Json.Token.scan "\x7b\"a\":\"x\",\"b\":[true]\x7d".toList =
    [.openMap, .string (some "a"), .colon, .string (some "x"), .comma, .string (some "b"), .colon, .openList,
      .bool true, .closeList, .closeMap] := by
  decide +kernel

/-- The name `b` comes again behind `a` and keeps its place; a list whose first item is no kind stands for no field. -/
theorem inserted_in_order_repeated :
    let fields : List Field := [.text "b" "x", .text "a" "", .checkbox "b" true]
    let r := ofList fields
    r.names = ["b", "a"] ∧ r.find? "b" = some (.checkbox "b" true) ∧ r.find? "c" = none ∧ r.size = 2 ∧
      ofText "\x7b\"b\":\"x\",\"a\":\"\",\"b\":true\x7d" = .ok r ∧
      (∃ fault, ofText "\x7b\"a\":\"x\",\"b\":[true]\x7d" = .error fault) ∧
      ofYaml? (.map none [(.scalar none true "b", .scalar none true "x"),
        (.scalar none true "a", .scalar none false ""), (.scalar none true "b", .scalar none true "true")]) = some r ∧
      ofYaml? (.map none [(.scalar none true "a", .scalar none true "x"),
        (.scalar none true "b", .list none [.scalar none true "true"])]) = none := by
  intro fields r
  obtain ⟨hholds, hlist, htext, hbad, hyaml, hbadYaml⟩ := inserted_in_order
  have hr := hholds fields r (hlist fields)
  refine ⟨hr.names_eq.trans (by decide), (hr.find?_eq "b").trans (by decide),
    hr.find?_eq_none "c" (by decide), hr.size_eq.trans (by decide), ?_, ?_, ?_, ?_⟩
  · refine (htext _ r).2 ⟨_, fields, by rw [Json.Document.read, scan_repeated]; rfl, ?_, hlist fields⟩
    exact .cons ⟨"b", rfl, by decide⟩ (.cons ⟨"a", rfl, by decide⟩ (.cons ⟨"b", rfl, by decide⟩ .nil))
  · refine hbad _ _ true (by rw [Json.Document.read, scan_list]; rfl)
      (.string (some "b"), .list [.bool true] true) (by simp) ?_
    rintro f ⟨name, hname, hfield⟩
    cases hfield
  · refine (hyaml _ r).2 ⟨_, fields, rfl, ?_, hlist fields⟩
    exact .cons ⟨"b", _, rfl, rfl, by decide⟩
      (.cons ⟨"a", _, rfl, rfl, by decide⟩ (.cons ⟨"b", _, rfl, rfl, by decide⟩ .nil))
  · refine hbadYaml _ _ rfl (.scalar none true "b", .list none [.scalar none true "true"]) (by simp) ?_
    rintro f ⟨name, node, hname, hnode, hfield⟩
    cases hnode
    cases hfield

end FieldRules.Record
