import FieldRules.Proofs.NameMap
import FieldRules.Proofs.Record.Insertion
import FieldRules.Session

/-!
# What a session sees of its fields

A session looks up the fields that its specifications name and sees nothing else of the place where they are kept: a
record, or a map from names to fields (`FieldMap`). The key facts: `Session.walk_congr_source` (a walk depends on the
fields that are looked up alone), `FieldMap.source_eq` (whichever map they are put into, the same fields are found
as in a record) and `Record.find?_ofList_eq_latest` (of the fields of one name, the last).
-/

namespace FieldRules

/-- The last field of a name. -/
def Field.latest (fields : List Field) (name : String) : Option Field :=
  (fields.filter (·.name = name)).getLast?

theorem Record.find?_ofList_eq_latest (fields : List Field) (name : String) :
    (ofList fields).find? name = Field.latest fields name := by
  rw [find?_ofList, Field.latest, List.getLast?_eq_head?_reverse, ← List.filter_reverse, List.head?_filter]

/-! ### Maps from names to fields -/

/-- A kind of map that fields are put into under their own names, each over the one of the same name. -/
structure FieldMap (M : Type) where
  empty : M
  insert : M → Field → M
  find? : M → FieldSource
  find?_empty (name : String) : find? empty name = none
  find?_insert (m : M) (f : Field) (name : String) :
    find? (insert m f) name = if name = f.name then some f else find? m name

namespace FieldMap

/-- A map by hashes of the names. -/
def hashed : FieldMap (Std.HashMap String Field) where
  empty := ∅
  insert m f := m.insert f.name f
  find? m name := m[name]?
  find?_empty _ := Std.HashMap.getElem?_empty
  find?_insert m f name := by
    have hbeq : (f.name == name) = true ↔ name = f.name := beq_iff_eq.trans eq_comm
    rw [Std.HashMap.getElem?_insert, if_congr hbeq rfl rfl]

/-- A map in the order of the names. -/
def ordered : FieldMap (NameMap Field) where
  empty := .empty
  insert m f := m.insert f.name f
  find? m name := m.find? name
  find?_empty _ := rfl
  find?_insert m f name := NameMap.find?_insert m f.name name f

variable {M : Type}

/-- The fields of a list, put into a map one by one. -/
def source (map : FieldMap M) (fields : List Field) : FieldSource :=
  map.find? (fields.foldl map.insert map.empty)

private theorem find?_foldl_insert (map : FieldMap M) {m : M} {r : Record} (h : map.find? m = r.find?)
    (fields : List Field) : map.find? (fields.foldl map.insert m) = (fields.foldl Record.insert r).find? := by
  induction fields generalizing m r with
  | nil => exact h
  | cons f rest ih =>
    -- one more field leaves the map and the record alike, so that the rest goes on from there
    apply ih
    funext name
    rw [map.find?_insert, Record.find?_insert, h]

/-- The same fields are found in every map as in a record. -/
theorem source_eq (map : FieldMap M) (fields : List Field) : map.source fields = (Record.ofList fields).find? := by
  have hempty : map.find? map.empty = Record.empty.find? := funext map.find?_empty
  exact find?_foldl_insert map hempty fields

end FieldMap

/-! ### Sessions over fields that are looked up alike -/

namespace Session

/-- A walk depends on the fields that its specifications name. -/
theorem walk_congr_source {source source' : FieldSource} (registry : Registry) {specs : List FieldSpec}
    (h : ∀ spec ∈ specs, source' spec.field = source spec.field) :
    walk source' registry specs = walk source registry specs := by
  induction specs with
  | nil => rfl
  | cons spec rest ih =>
    obtain ⟨hfirst, hrest⟩ := List.forall_mem_cons.1 h
    unfold walk
    rw [hfirst, ih hrest]

/-- Nothing but the fields of the names in its specifications matters to a session. Where these are the same, it
evaluates to the same errors, fault and warnings. So it does over a record, a map by hashes and a map in order that
the same fields were put into, and over two records into which the last field of each of the names was the same. -/
theorem evaluate_sees_lookups (registry : Registry) (specs : List FieldSpec) :
    (∀ source source' : FieldSource, (∀ spec ∈ specs, source' spec.field = source spec.field) →
      (Session.mk source' registry specs).evaluate = (Session.mk source registry specs).evaluate) ∧
    (∀ fields : List Field,
      (Session.mk (FieldMap.hashed.source fields) registry specs).evaluate =
        (Session.mk (Record.ofList fields).find? registry specs).evaluate ∧
      (Session.mk (FieldMap.ordered.source fields) registry specs).evaluate =
        (Session.mk (Record.ofList fields).find? registry specs).evaluate) ∧
    (∀ fields fields' : List Field,
      (∀ spec ∈ specs, Field.latest fields' spec.field = Field.latest fields spec.field) →
      (Session.mk (Record.ofList fields').find? registry specs).evaluate =
        (Session.mk (Record.ofList fields).find? registry specs).evaluate) := by
  have hcongr (source source' : FieldSource) (h : ∀ spec ∈ specs, source' spec.field = source spec.field) :
      (Session.mk source' registry specs).evaluate = (Session.mk source registry specs).evaluate := by
    unfold evaluate
    rw [walk_congr_source registry h]
  refine ⟨hcongr, fun fields => ?_, fun fields fields' h => ?_⟩
  · rw [FieldMap.source_eq, FieldMap.source_eq]
    exact ⟨rfl, rfl⟩
  · apply hcongr
    intro spec hspec
    rw [Record.find?_ofList_eq_latest, Record.find?_ofList_eq_latest]
    exact h spec hspec

/-- The records differ in the order of their fields and in the field `b`, which has no specification. -/
theorem evaluate_sees_lookups_last :
    let fields : List Field := [.text "a" "x", .text "b" "y", .text "a" ""]
    let fields' : List Field := [.checkbox "b" true, .text "a" ""]
    let source : FieldSource := fun name => if name = "a" then some (.text "a" "") else none
    let specs : List FieldSpec := [⟨"a", "required|alpha"⟩, ⟨"c", "email"⟩]
    (∀ spec ∈ specs, source spec.field = (Record.ofList fields).find? spec.field) ∧
      (∀ spec ∈ specs, Field.latest fields' spec.field = Field.latest fields spec.field) ∧
      (Session.mk source .standard specs).evaluate = (Session.mk (Record.ofList fields).find? .standard specs).evaluate ∧
      (Session.mk (Record.ofList fields').find? .standard specs).evaluate =
        (Session.mk (Record.ofList fields).find? .standard specs).evaluate ∧
      (Session.mk (Record.ofList fields).find? .standard specs).run.result = .ok false := by
  intro fields fields' source specs
  have hsource : ∀ spec ∈ specs, source spec.field = (Record.ofList fields).find? spec.field := by decide
  have hlatest : ∀ spec ∈ specs, Field.latest fields' spec.field = Field.latest fields spec.field := by decide
  obtain ⟨hsources, -, hrecords⟩ := evaluate_sees_lookups .standard specs
  exact ⟨hsource, hlatest, hsources _ source hsource, hrecords fields fields' hlatest, by rfl⟩

end Session

end FieldRules
