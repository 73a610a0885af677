import FieldRules.Proofs.Json.Rendering
import FieldRules.Proofs.Record.Entries

/-!
# Written records read back

A record that is written as JSON, in one line or over many, is read back as it was, fields in their order. The key
facts: `Field.isEntry_body` (what is written of a field stands for it) and `Record.readJson_ofValue`.
-/

namespace FieldRules

open Json
open Data (Value)

namespace Field

theorem numberless_body (f : Field) : (Value.map f.bodyMembers).Numberless := by
  refine .map ?_
  intro m hm
  simp only [bodyMembers, List.cons_append, List.mem_cons, List.mem_append, List.mem_map] at hm
  obtain rfl | ⟨v, -, rfl⟩ | ⟨b, -, rfl⟩ := hm
  · exact .string f.kind.name
  · exact .string v
  · exact .bool b

/-- What is written of a field stands for it, whichever of its parts are there. -/
theorem isEntry_body (f : Field) {budget : Nat} (h : 1 < budget) :
    Record.IsEntry budget (.string (some f.name), .ofValue (.map f.bodyMembers)) f := by
  obtain ⟨name, kind, value, checked⟩ := f
  refine ⟨name, rfl, ?_⟩
  cases value <;> cases checked <;>
    simp [bodyMembers, FieldKind.toValue, Document.ofValue, Document.ofMembers, Document.node?, Document.memberNodes?,
      h, Entry.field?, Entry.ofEntries?, Entry.part?, Entry.take?, Entry.kind?, Entry.value?, Entry.checked?,
      FieldKind.ofName_name]

end Field

namespace Record

private theorem numberless_toValue (r : Record) : r.toValue.Numberless := by
  refine .map ?_
  intro m hm
  obtain ⟨f, -, rfl⟩ := List.mem_map.1 hm
  exact f.numberless_body

theorem readJson_ofValue (r : Record) : readJson ⟨.text, 128⟩ (.ofValue r.toValue) = .ok r := by
  have hmembers : Document.ofValue r.toValue =
      .map (r.fields.map fun f => (.string (some f.name), .ofValue (.map f.bodyMembers))) true := by
    rw [toValue, Document.ofValue, Document.ofMembers_eq, List.map_map]
    rfl
  have hentries : List.Forall₂ (IsEntry 127)
      (r.fields.map fun f => (.string (some f.name), .ofValue (.map f.bodyMembers))) r.fields := by
    rw [List.forall₂_map_left_iff, List.forall₂_same]
    exact fun f _ => f.isEntry_body (by decide)
  exact readJson_eq_ok_iff.2 ⟨by decide, _, hmembers, r.fields, hentries, r.ofList_fields⟩

/-- A record that is written, in one line or over many, reads back as it was. -/
theorem text_round_trip (r : Record) :
    ofText (Json.render r.toValue) = .ok r ∧ ofText (Json.renderPretty r.toValue) = .ok r := by
  have hread {text : String} (h : Document.read text = (.ofValue r.toValue, true)) : ofText text = .ok r := by
    refine readWhole_eq_ok_iff.2 ?_
    rw [h]
    exact ⟨r.readJson_ofValue, rfl⟩
  exact ⟨hread (Document.read_render r.numberless_toValue), hread (Document.read_renderPretty r.numberless_toValue)⟩

end Record

end FieldRules
