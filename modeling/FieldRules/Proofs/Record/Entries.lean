import FieldRules.Proofs.Record.Insertion
import FieldRules.Record.Json
import Mathlib.Data.List.Forall2

/-!
# The members of a record

A member of a map is an entry of a field when its key is the name and its value stands for the field
(`Record.IsEntry`). The key facts: `Json.readWhole_eq_ok_iff` (what a whole text is read as),
`Record.readJson_eq_ok_iff` (a document is read as a record exactly when it is a map whose members are entries, and the
record is then made by inserting the fields in order) and `Record.ofText_eq_ok_iff` (so is a text).
-/

namespace FieldRules

open Json

theorem Json.readWhole_eq_ok_iff {α : Type} {read : Scope → Document → Read α} {text : String} {a : α} :
    readWhole read text = .ok a ↔
      read ⟨.text, 128⟩ (Document.read text).1 = .ok a ∧ (Document.read text).2 = true := by
  unfold readWhole
  obtain ⟨document, atEnd⟩ := Document.read text
  cases hread : read ⟨.text, 128⟩ document with
  | error fault => simp [hread, bind, Except.bind]
  | ok value => cases atEnd <;> simp [hread, bind, Except.bind]

/-- A text that is read to its end is read as its document is. -/
theorem Json.readWhole_of_read {α : Type} {read : Scope → Document → Read α} {text : String} {d : Document}
    (h : Document.read text = (d, true)) : readWhole read text = read ⟨.text, 128⟩ d := by
  rw [readWhole, h]
  cases hread : read ⟨.text, 128⟩ d <;> simp [hread, bind, Except.bind]

theorem Json.readDocument_eq_ok_iff {text : String} {d : Document} :
    readDocument text = .ok d ↔ Document.read text = (d, true) ∧ (d.node? 128).isSome := by
  have hnode {d' : Document} : (do
      let _ ← d'.readNode ⟨.text, 128⟩
      return d' : Read Document) = .ok d ↔ d' = d ∧ (d'.node? 128).isSome := by
    unfold Document.readNode
    cases d'.node? 128 <;> simp [bind, Except.bind, pure, Except.pure]
  rw [readDocument, readWhole_eq_ok_iff, hnode, Prod.ext_iff]
  constructor
  · rintro ⟨⟨rfl, hsome⟩, hend⟩
    exact ⟨⟨rfl, hend⟩, hsome⟩
  · rintro ⟨⟨rfl, hend⟩, hsome⟩
    exact ⟨⟨rfl, hsome⟩, hend⟩

namespace Record

/-- A member that stands for a field, with the lists and maps of its value nested less deep than the budget. -/
def IsEntry (budget : Nat) (m : Document × Document) (f : Field) : Prop :=
  ∃ name, m.1 = .string (some name) ∧ (m.2.node? budget).bind (Entry.field? name) = some f

private theorem readMembers_eq_ok_iff {scope : Scope} {closed : Bool} {r r' : Record}
    {members : List (Document × Document)} :
    readMembers scope closed r members = .ok r' ↔
      closed = true ∧ ∃ fields, List.Forall₂ (IsEntry scope.budget) members fields ∧ fields.foldl insert r = r' := by
  induction members generalizing r with
  | nil => cases closed <;> simp [readMembers]
  | cons m rest ih =>
    obtain ⟨key, d⟩ := m
    simp only [List.forall₂_cons_left_iff]
    cases key with
    | string s =>
      cases s with
      | none => simp [readMembers, IsEntry]
      | some name =>
        rw [readMembers]
        cases hfield : (d.node? scope.budget).bind (Entry.field? name) with
        | none => simp [mismatch, IsEntry, hfield]
        | some f => simp [ih, IsEntry, hfield]
    | _ => simp [readMembers, IsEntry]

private theorem unexpected_ne_ok {α : Type} (d : Document) (expected : String) (a : α) :
    d.unexpected expected ≠ .ok a := by
  unfold Document.unexpected
  cases d.found <;> simp [mismatch, bind, Except.bind]

theorem readJson_eq_ok_iff {scope : Scope} {d : Document} {r : Record} :
    readJson scope d = .ok r ↔ 1 < scope.budget ∧ ∃ members, d = .map members true ∧
      ∃ fields, List.Forall₂ (IsEntry (scope.budget - 1)) members fields ∧ ofList fields = r := by
  cases d with
  | map members closed =>
    by_cases hbudget : 1 < scope.budget
    · have henter : scope.enter = .ok ⟨scope.origin, scope.budget - 1⟩ := if_pos hbudget
      simp only [readJson, henter, hbudget, true_and]
      refine readMembers_eq_ok_iff.trans ?_
      simp [ofList]
    · have henter : scope.enter = .error .malformed := if_neg hbudget
      simp [readJson, henter, hbudget, bind, Except.bind]
  | _ => simp [readJson, unexpected_ne_ok]

/-- A text is read as a record when it is a map whose members are entries, with nothing behind it. -/
theorem ofText_eq_ok_iff {text : String} {r : Record} :
    ofText text = .ok r ↔
      ∃ members fields, Document.read text = (.map members true, true) ∧
        List.Forall₂ (IsEntry 127) members fields ∧ ofList fields = r := by
  rw [ofText, readWhole_eq_ok_iff, readJson_eq_ok_iff]
  constructor
  · rintro ⟨⟨-, members, hdocument, fields, hentries, rfl⟩, hend⟩
    exact ⟨members, fields, Prod.ext hdocument hend, hentries, rfl⟩
  · rintro ⟨members, fields, hread, hentries, rfl⟩
    rw [hread]
    exact ⟨⟨by decide, members, rfl, fields, hentries, rfl⟩, rfl⟩

end Record

end FieldRules
