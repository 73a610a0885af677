import FieldRules.Proofs.Json.Integer
import FieldRules.Proofs.Record.Data
import FieldRules.Proofs.Record.RoundTrip

/-!
# Integers in a record

What becomes of an integer that a record has for a field, or for the value in the description of one. The key facts:
`Place.isEntry_congr` (where a value stands, texts and numbers that say the same are as good as each other),
`Place.value_of_isEntry` (the field has what they say for its value) and `integer_kept`.
-/

namespace FieldRules

open Json
open Data (Node Value)

/-! ### Values in a description -/

namespace Entry

variable {f g : Field} {taken : List Part} {before after : List (Node × Node)} {n n' : Node}

/-- Of the value in a description only what it is read as matters. -/
private theorem ofEntries?_congr_value (h : value? n = value? n') :
    ofEntries? f taken (before ++ (.string "value", n) :: after) =
      ofEntries? f taken (before ++ (.string "value", n') :: after) := by
  induction before generalizing f taken with
  | nil => simp [ofEntries?, part?, take?, h]
  | cons e rest ih =>
    obtain ⟨key, m⟩ := e
    simp only [List.cons_append, ofEntries?, ih]

private theorem Part.read?_of_readAs {p : Part} {ns ns' : List Node} (h : p.ReadAs taken f g (ns ++ n :: ns')) :
    p.read? n = some (p.of g) := by
  obtain _ | ⟨m, _ | _⟩ := ns
  · cases ns' with
    | nil => exact h.2
    | cons m ms => cases h
  · cases h
  · cases h

/-- A field that is described has the value that the description gives. -/
private theorem value?_of_ofEntries? (h : ofEntries? f taken (before ++ (.string "value", n) :: after) = some g) :
    value? n = some g.value := by
  obtain ⟨-, -, hparts⟩ := ofEntries?_eq_some_iff.1 h
  have hgiven : Part.given .value (before ++ (.string "value", n) :: after) =
      Part.given .value before ++ n :: Part.given .value after := by
    simp [Part.given, part?]
  have hread := Part.read?_of_readAs (hgiven ▸ hparts .value)
  obtain ⟨value, hvalue, hcontent⟩ := Option.map_eq_some_iff.1 hread
  cases hcontent
  exact hvalue

end Entry

namespace Record

/-! ### Places of a value -/

/-- The places where a record may have a value for a text field: by itself, or under `value` in a description. -/
inductive Place : (Document → Document) → Prop
  | shorthand : Place fun d => d
  | described (before after : List (Document × Document)) :
      Place fun d => .map (before ++ (.string (some "value"), d) :: after) true

/-- What a text or a number says, which is the value of a text field that it stands for. -/
def Says (d : Document) (s : String) : Prop := ∃ n, (∀ budget, d.node? budget = some n) ∧ Entry.value? n = some (some s)

private theorem says_string (s : String) : Says (.string (some s)) s := ⟨.string s, fun _ => rfl, rfl⟩

private theorem says_number {l : Literal} {n : Data.Number} (h : l.number? = some n) : Says (.number l) n.text := by
  refine ⟨.number n, ?_, rfl⟩
  intro budget
  rw [Document.node?, h]
  rfl

section Places

variable {budget : Nat} {name s : String} {f : Field} {place : Document → Document} {d d' : Document}

private theorem isEntry_described_iff {before after : List (Document × Document)} :
    IsEntry budget (.string (some name), .map (before ++ (.string (some "value"), d) :: after) true) f ↔
      1 < budget ∧ ∃ n, d.node? (budget - 1) = some n ∧
        ∃ es es', Document.memberNodes? (budget - 1) before = some es ∧
          Document.memberNodes? (budget - 1) after = some es' ∧
          Entry.ofEntries? { name } [] (es ++ (.string "value", n) :: es') = some f := by
  simp only [Document.memberNodes?_eq_some_iff]
  constructor
  · rintro ⟨_, ⟨⟩, hfield⟩
    obtain ⟨_, hnode, hfield⟩ := Option.bind_eq_some_iff.1 hfield
    obtain ⟨⟨-, hbudget⟩, entries, hentries, rfl⟩ := Document.node?_map_eq_some_iff.1 hnode
    obtain ⟨es, ⟨_, n⟩, es', hes, ⟨⟨⟩, hn⟩, hes', rfl⟩ :=
      forall₂_append_cons_iff.1 (Document.memberNodes?_eq_some_iff.1 hentries)
    exact ⟨hbudget, n, hn, es, es', hes, hes', hfield⟩
  · rintro ⟨hbudget, n, hn, es, es', hes, hes', hfield⟩
    have hentries : Document.memberNodes? (budget - 1) (before ++ (.string (some "value"), d) :: after) =
        some (es ++ (.string "value", n) :: es') :=
      Document.memberNodes?_eq_some_iff.2 (forall₂_append_cons_iff.2 ⟨es, _, es', hes, ⟨rfl, hn⟩, hes', rfl⟩)
    have hnode := Document.node?_map_eq_some_iff.2 ⟨⟨rfl, hbudget⟩, _, hentries, rfl⟩
    exact ⟨name, rfl, Option.bind_eq_some_iff.2 ⟨_, hnode, hfield⟩⟩

private theorem isEntry_iff_text (hd : Says d s) :
    IsEntry budget (.string (some name), d) f ↔ f = .text name s := by
  obtain ⟨n, hn, hvalue⟩ := hd
  have hfield : Entry.field? name n = some (.text name s) := by
    cases n with
    | string _ | number _ =>
      cases hvalue
      rfl
    | _ => cases hvalue
  constructor
  · rintro ⟨_, ⟨⟩, h⟩
    rw [hn, Option.bind_some, hfield] at h
    exact (Option.some.inj h).symm
  · rintro rfl
    exact ⟨name, rfl, by rw [hn, Option.bind_some, hfield]⟩

/-- Where a value stands, texts and numbers that say the same are as good as each other. -/
theorem Place.isEntry_congr (hplace : Place place) (hd : Says d s) (hd' : Says d' s) :
    IsEntry budget (.string (some name), place d) f ↔ IsEntry budget (.string (some name), place d') f := by
  cases hplace with
  | shorthand => rw [isEntry_iff_text hd, isEntry_iff_text hd']
  | described before after =>
    obtain ⟨n, hn, hvalue⟩ := hd
    obtain ⟨n', hn', hvalue'⟩ := hd'
    simp only [isEntry_described_iff, hn, hn', Option.some.injEq, exists_eq_left',
      Entry.ofEntries?_congr_value (hvalue.trans hvalue'.symm)]

/-- The field has for its value what the text or the number in this place says. -/
theorem Place.value_of_isEntry (hplace : Place place) (hd : Says d s)
    (h : IsEntry budget (.string (some name), place d) f) : f.value = some s := by
  cases hplace with
  | shorthand =>
    rw [isEntry_iff_text hd] at h
    rw [h, Field.text]
  | described before after =>
    obtain ⟨n, hn, hvalue⟩ := hd
    obtain ⟨-, _, hn', es, es', -, -, hentries⟩ := isEntry_described_iff.1 h
    obtain rfl := Option.some.inj ((hn _).symm.trans hn')
    exact Option.some.inj ((Entry.value?_of_ofEntries? hentries).symm.trans hvalue)

/-- What stands in this place can be read. -/
private theorem Place.exists_node (hplace : Place place) (h : IsEntry budget (.string (some name), place d) f) :
    ∃ b n, d.node? b = some n := by
  cases hplace with
  | shorthand =>
    obtain ⟨_, ⟨⟩, hfield⟩ := h
    obtain ⟨n, hn, -⟩ := Option.bind_eq_some_iff.1 hfield
    exact ⟨_, n, hn⟩
  | described before after =>
    obtain ⟨-, n, hn, -⟩ := isEntry_described_iff.1 h
    exact ⟨_, n, hn⟩

/-- An integer of 64 bits is as good as its text in quotes. -/
private theorem isEntry_integer (hplace : Place place) {i : Integer} (hfits : i.FitsWord) :
    IsEntry budget (.string (some name), place (.number i.literal)) f ↔
      IsEntry budget (.string (some name), place (.string (some i.text))) f := by
  have hsays := says_number (Integer.number?_of_fitsWord hfits)
  rw [i.text_number] at hsays
  exact hplace.isEntry_congr hsays (says_string i.text)

/-- Any other one is not what the field has for its value. -/
private theorem value_ne_of_isEntry_integer (hplace : Place place) {i : Integer} (hfits : ¬ i.FitsWord)
    (h : IsEntry budget (.string (some name), place (.number i.literal)) f) : f.value ≠ some i.text := by
  obtain ⟨b, n, hnode⟩ := hplace.exists_node h
  obtain ⟨x, hx, -⟩ := Option.map_eq_some_iff.1 hnode
  rw [hplace.value_of_isEntry (says_number hx) h]
  exact fun htext => Integer.text_ne_of_number? hfits hx (Option.some.inj htext)

end Places

/-! ### Texts with an integer -/

section Texts

variable {i : Integer}

/-- A record with an integer in one of its places, where it would be read if the integer were in quotes. -/
private theorem ofText_integer {text name : String} {place : Document → Document}
    {before after : List (Document × Document)} {fields : List Field} (hplace : Place place)
    (hread : Document.read text =
      (.map (before ++ (.string (some name), place (.number i.literal)) :: after) true, true))
    (hquoted : List.Forall₂ (IsEntry 127)
      (before ++ (.string (some name), place (.string (some i.text))) :: after) fields)
    (hlast : ∀ m ∈ after, m.1 ≠ .string (some name)) :
    (i.FitsWord → ofText text = .ok (ofList fields) ∧
      ∃ f, (ofList fields).find? name = some f ∧ f.value = some i.text) ∧
    (¬ i.FitsWord → ∀ r f, ofText text = .ok r → r.find? name = some f → f.value ≠ some i.text) := by
  constructor
  · intro hfits
    obtain ⟨f, hf, hfind⟩ := find?_last_entry hquoted hlast
    refine ⟨ofText_eq_ok_iff.2 ⟨_, fields, hread, ?_, rfl⟩, f, hfind, hplace.value_of_isEntry (says_string _) hf⟩
    obtain ⟨gs, g, gs', hgs, hg, hgs', rfl⟩ := forall₂_append_cons_iff.1 hquoted
    exact forall₂_append_cons_iff.2 ⟨gs, g, gs', hgs, (isEntry_integer hplace hfits).2 hg, hgs', rfl⟩
  · intro hfits r f hr hfind
    obtain ⟨members, fields', hread', hentries, rfl⟩ := ofText_eq_ok_iff.1 hr
    rw [hread, Prod.mk.injEq, Document.map.injEq] at hread'
    obtain ⟨g, hg, hfind'⟩ := find?_last_entry (hread'.1.1 ▸ hentries) hlast
    obtain rfl := Option.some.inj (hfind'.symm.trans hfind)
    exact value_ne_of_isEntry_integer hplace hfits hg

end Texts

end Record

/-! ### Written records -/

/-- The data of a field that has an integer for its value, with the integer as a number. -/
inductive Field.WrittenWith (i : Integer) : Field → Value → Prop
  | shorthand (name : String) : WrittenWith i (.text name i.text) (.number i.number)
  | described {f : Field} : f.value = some i.text →
      WrittenWith i f (.map (("kind", f.kind.toValue) :: ("value", .number i.number) ::
        f.checked.toList.map fun b => ("checked", .bool b)))

/-- The data of a record, with some data for the field of one name. -/
def Record.toValueWith (r : Record) (name : String) (v : Value) : Value :=
  .map (r.fields.map fun f => (f.name, if f.name = name then v else .map f.bodyMembers))

section Written

variable {i : Integer} {r : Record} {f : Field} {v : Value}

private theorem Json.Integer.readsApart_number (i : Integer) :
    Token.ReadsApart i.number.text.toList [.number i.literal] := by
  rw [i.text_number, Integer.text, String.toList_ofList]
  exact i.readsApart

private theorem Field.WrittenWith.readable (h : f.WrittenWith i v) : Readable v := by
  cases h with
  | shorthand name => exact .number i.readsApart_number
  | described =>
    refine .map ?_
    intro m hm
    simp only [List.mem_cons, List.mem_map] at hm
    obtain rfl | rfl | ⟨b, -, rfl⟩ := hm
    · exact .string f.kind.name
    · exact .number i.readsApart_number
    · exact .bool b

/-- The integer has its place in the data, and with its text there instead the data stands for the field. -/
private theorem Field.WrittenWith.exists_place (h : f.WrittenWith i v) {budget : Nat} (hbudget : 1 < budget) :
    ∃ place, Record.Place place ∧ Document.ofValue v = place (.number i.literal) ∧
      Record.IsEntry budget (.string (some f.name), place (.string (some i.text))) f := by
  have hnumber := Document.ofValue_number i.readsApart_number
  cases h with
  | shorthand name => exact ⟨_, .shorthand, hnumber, name, rfl, rfl⟩
  | described hvalue =>
    refine ⟨_, .described [(.string (some "kind"), .ofValue f.kind.toValue)]
      (Document.ofMembers (f.checked.toList.map fun b => ("checked", .bool b))), ?_, ?_⟩
    · rw [Document.ofValue, Document.ofMembers, Document.ofMembers, hnumber]
      rfl
    · have hbody := f.isEntry_body hbudget
      simpa [Field.bodyMembers, hvalue, Document.ofValue, Document.ofMembers] using hbody

namespace Record

private theorem ne_name_of_fields_eq {before after : List Field} (hfields : r.fields = before ++ f :: after) :
    ∀ g ∈ before ++ after, g.name ≠ f.name := by
  have hdistinct := r.distinct
  rw [hfields, List.map_append, List.map_cons, List.nodup_middle, List.nodup_cons, ← List.map_append] at hdistinct
  intro g hg hname
  exact hdistinct.1 (hname ▸ List.mem_map_of_mem hg)

/-- Members that stand for fields of which one is given. -/
private def membersAround (before after : List Field) (name : String) (d : Document) : List (Document × Document) :=
  before.map (fun g => (.string (some g.name), .ofValue (.map g.bodyMembers))) ++ (.string (some name), d) ::
    after.map fun g => (.string (some g.name), .ofValue (.map g.bodyMembers))

private theorem ofValue_toValueWith {before after : List Field} (hfields : r.fields = before ++ f :: after) :
    Document.ofValue (r.toValueWith f.name v) = .map (membersAround before after f.name (.ofValue v)) true := by
  have hother := ne_name_of_fields_eq hfields
  rw [List.forall_mem_append] at hother
  rw [toValueWith, Document.ofValue, Document.ofMembers_eq, hfields, List.map_map, List.map_append, List.map_cons,
    membersAround]
  congr 2
  · refine List.map_congr_left fun g hg => ?_
    simp [hother.1 g hg]
  · congr 1
    · simp
    · refine List.map_congr_left fun g hg => ?_
      simp [hother.2 g hg]

private theorem entries_membersAround {before after : List Field} {d : Document}
    (h : IsEntry 127 (.string (some f.name), d) f) :
    List.Forall₂ (IsEntry 127) (membersAround before after f.name d) (before ++ f :: after) := by
  have hbodies (fields : List Field) : List.Forall₂ (IsEntry 127)
      (fields.map fun g => (.string (some g.name), .ofValue (.map g.bodyMembers))) fields := by
    rw [List.forall₂_map_left_iff, List.forall₂_same]
    exact fun g _ => g.isEntry_body (by decide)
  exact List.rel_append (hbodies before) (.cons h (hbodies after))

/-- A record that is written with an integer for one of its values. -/
private theorem ofText_writtenWith {text : String} (hf : f ∈ r.fields) (hwritten : f.WrittenWith i v)
    (htext : text = render (r.toValueWith f.name v) ∨ text = renderPretty (r.toValueWith f.name v)) :
    (i.FitsWord → ofText text = .ok r) ∧
    (¬ i.FitsWord → ∀ r' g, ofText text = .ok r' → r'.find? f.name = some g → g.value ≠ some i.text) := by
  obtain ⟨before, after, hfields⟩ := List.append_of_mem hf
  obtain ⟨place, hplace, hdocument, hentry⟩ := hwritten.exists_place (show 1 < 127 by decide)
  have hreadable : Readable (r.toValueWith f.name v) := by
    refine .map ?_
    intro m hm
    obtain ⟨g, -, rfl⟩ := List.mem_map.1 hm
    dsimp only
    split
    · exact hwritten.readable
    · exact readable_of_numberless g.numberless_body
  have hread : Document.read text =
      (.map (membersAround before after f.name (place (.number i.literal))) true, true) := by
    rw [Document.read_written hreadable htext, ofValue_toValueWith hfields, hdocument]
  have hlast : ∀ m ∈ after.map fun g => (Document.string (some g.name), Document.ofValue (.map g.bodyMembers)),
      m.1 ≠ .string (some f.name) := by
    intro m hm
    obtain ⟨g, hg, rfl⟩ := List.mem_map.1 hm
    simpa using ne_name_of_fields_eq hfields g (List.mem_append_right _ hg)
  obtain ⟨hkept, hlost⟩ := ofText_integer hplace hread (entries_membersAround hentry) hlast
  refine ⟨fun hfits => ?_, hlost⟩
  rw [(hkept hfits).1, ← hfields, r.ofList_fields]

/-- An integer keeps its digits when it is one of 64 bits, and never otherwise. In any text, where a record has the
integer `i` by itself or for the value in a description, and with the text of `i` in quotes the record could be read, it
is read as the same record if `i` is an integer of 64 bits, so that the value of the field is the text of `i`; if `i` is
not, then the record is not read or the value is another. So it is with the text in which a record is written with `i`
for one of its values. -/
theorem integer_kept (i : Integer) :
    (∀ text before name place after fields, Place place →
      Document.read text = (.map (before ++ (.string (some name), place (.number i.literal)) :: after) true, true) →
      List.Forall₂ (IsEntry 127) (before ++ (.string (some name), place (.string (some i.text))) :: after) fields →
      (∀ m ∈ after, m.1 ≠ .string (some name)) →
      (i.FitsWord → ofText text = .ok (ofList fields) ∧
        ∃ f, (ofList fields).find? name = some f ∧ f.value = some i.text) ∧
      (¬ i.FitsWord → ∀ r f, ofText text = .ok r → r.find? name = some f → f.value ≠ some i.text)) ∧
    (∀ (r : Record) f v text, f ∈ r.fields → f.WrittenWith i v →
      (text = render (r.toValueWith f.name v) ∨ text = renderPretty (r.toValueWith f.name v)) →
      (i.FitsWord → ofText text = .ok r) ∧
      (¬ i.FitsWord → ∀ r' g, ofText text = .ok r' → r'.find? f.name = some g → g.value ≠ some i.text)) :=
  ⟨fun _ _ _ _ _ _ hplace hread hquoted hlast => ofText_integer hplace hread hquoted hlast,
    fun _ _ _ _ hf hwritten htext => ofText_writtenWith hf hwritten htext⟩

private def greatestWord : Integer where
  negative := false
  digits := "18446744073709551615".toList
  isDigit := List.all_eq_true.1 (by decide)
  canonical := .inr ⟨'1', _, rfl, by decide⟩

private def firstBeyond : Integer where
  negative := false
  digits := "18446744073709551616".toList
  isDigit := List.all_eq_true.1 (by decide)
  canonical := .inr ⟨'1', _, rfl, by decide⟩

private theorem scan_firstBeyond : Token.scan "\x7b\"card\":\x7b\"value\":18446744073709551616\x7d\x7d".toList =
    [.openMap, .string (some "card"), .colon, .openMap, .string (some "value"), .colon, .number firstBeyond.literal,
      .closeMap, .closeMap] := by
  decide +kernel

/-- The greatest integer of 64 bits by itself, in a record with one more field, and the next one under `value`. -/
theorem integer_kept_greatest :
    let r := ofList [.text "card" "18446744073709551615", .checkbox "ok" true]
    let r' := ofList [.text "card" "1.8446744073709552e+19"]
    greatestWord.FitsWord ∧ ¬ firstBeyond.FitsWord ∧
      ofText "\x7b\"card\":18446744073709551615,\"ok\":\x7b\"kind\":\"checkbox\",\"checked\":true\x7d\x7d" = .ok r ∧
      ofText "\x7b\"card\":\x7b\"value\":18446744073709551616\x7d\x7d" = .ok r' ∧
      some "1.8446744073709552e+19" ≠ some "18446744073709551616" := by
  intro r r'
  have hkept : greatestWord.FitsWord := by decide
  have hlost : ¬ firstBeyond.FitsWord := by decide
  have hread : Document.read "\x7b\"card\":\x7b\"value\":18446744073709551616\x7d\x7d" =
      (.map [(.string (some "card"), .map [(.string (some "value"), .number firstBeyond.literal)] true)] true,
        true) := by
    rw [Document.read, scan_firstBeyond]
    rfl
  have hbeyond : ofText "\x7b\"card\":\x7b\"value\":18446744073709551616\x7d\x7d" = .ok r' :=
    ofText_eq_ok_iff.2 ⟨_, _, hread, .cons ⟨"card", rfl, by decide +kernel⟩ .nil, rfl⟩
  refine ⟨hkept, hlost, ?_, hbeyond, ?_⟩
  · obtain ⟨-, hwritten⟩ := integer_kept greatestWord
    exact (hwritten r (.text "card" greatestWord.text) (.number greatestWord.number) _ (by decide) (.shorthand "card")
      (.inl (by decide +kernel))).1 hkept
  · obtain ⟨htext, -⟩ := integer_kept firstBeyond
    exact (htext _ [] "card" _ [] [.text "card" firstBeyond.text] (.described [] []) hread
      (.cons ⟨"card", rfl, by decide +kernel⟩ .nil) (by simp)).2 hlost r' _ hbeyond rfl

private def longInteger : Integer where
  negative := false
  digits := "123456789012345678901234".toList
  isDigit := List.all_eq_true.1 (by decide)
  canonical := .inr ⟨'1', _, rfl, by decide⟩

private theorem scan_long : Token.scan "\x7b\"card\":123456789012345678901234\x7d".toList =
    [.openMap, .string (some "card"), .colon, .number longInteger.literal, .closeMap] := by
  decide +kernel

/-- An integer of 24 digits is not the value of its field. -/
theorem not_integer_kept_long :
    ¬ ∃ r f, ofText "\x7b\"card\":123456789012345678901234\x7d" = .ok r ∧ r.find? "card" = some f ∧
      f.value = some "123456789012345678901234" := by
  rintro ⟨r, f, hr, hfind, hvalue⟩
  have hread : Document.read "\x7b\"card\":123456789012345678901234\x7d" =
      (.map ([] ++ [(.string (some "card"), .number longInteger.literal)]) true, true) := by
    rw [Document.read, scan_long]
    rfl
  have hquoted : List.Forall₂ (IsEntry 127) [(.string (some "card"), .string (some longInteger.text))]
      [.text "card" longInteger.text] := .cons ⟨"card", rfl, rfl⟩ .nil
  exact (ofText_integer .shorthand hread hquoted (by simp)).2 (by decide) r f hr hfind hvalue

end Record

end Written

end FieldRules
