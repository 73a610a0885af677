import FieldRules.Proofs.Session.Evaluation

/-!
# The fields that errors name

Each specification gives at most one error, which names its field. The key facts: `Session.fields_of_errors` (the errors
name the fields of the specifications that are failed, in order) and `Session.errors_name_failed` (a field is named twice
only when two specifications for it are failed).
-/

namespace FieldRules.Session

variable {source : FieldSource} {registry : Registry}

/-- Whether the field of a specification fails it. -/
def Fails (source : FieldSource) (registry : Registry) (spec : FieldSpec) : Prop :=
  ∃ e, FailsWith source registry spec e

open Classical in
/-- The errors name the fields of the specifications that are failed. -/
theorem fields_of_errors {specs : List FieldSpec} {errors : List FieldError}
    (h : (walk source registry specs).2 = .ok errors) :
    errors.map (·.field) = (specs.filter fun spec => Fails source registry spec).map (·.field) := by
  obtain ⟨-, hspecs, hall⟩ := walk_eq_ok_iff.1 h
  have hfields : errors.map (·.field) = (errors.map (·.spec)).map (·.field) := by
    rw [List.map_map]
    exact List.map_congr_left fun e he => (hall e he).field_eq
  rw [hfields, hspecs]
  rfl

/-- There is at most one error for each specification, in order, and it names the field of the specification. So no
field is named twice, unless two specifications for one field are both failed. -/
theorem errors_name_failed {s : Session} {errors : List FieldError} (h : s.evaluate.result = .ok errors) :
    (errors.map (·.field)).Sublist (s.specs.map (·.field)) ∧
      ((errors.map (·.field)).Nodup ↔
        s.specs.Pairwise fun a b =>
          ¬ (a.field = b.field ∧ Fails s.source s.registry a ∧ Fails s.source s.registry b)) := by
  classical
  rw [fields_of_errors h]
  refine ⟨List.filter_sublist.map _, ?_⟩
  rw [List.Nodup, List.pairwise_map, List.pairwise_filter]
  refine List.Pairwise.iff ?_
  intro a b
  simp only [decide_eq_true_eq]
  constructor
  · rintro hne ⟨hfield, ha, hb⟩
    exact hne ha hb hfield
  · intro hnot ha hb hfield
    exact hnot ⟨hfield, ha, hb⟩

/-- A field with two specifications, one of which is passed, is named once. -/
theorem errors_name_failed_once :
    let s : Session := ⟨(Record.ofList [.text "contact" ""]).find?, .standard,
      [⟨"contact", "required"⟩, ⟨"contact", "alpha|email"⟩]⟩
    ∃ errors, s.evaluate.result = .ok errors ∧ errors.map (·.field) = ["contact"] ∧
      (errors.map (·.field)).Sublist (s.specs.map (·.field)) ∧
      s.specs.Pairwise fun a b =>
        ¬ (a.field = b.field ∧ Fails s.source s.registry a ∧ Fails s.source s.registry b) := by
  intro s
  obtain ⟨errors, hok, hfields⟩ :
      ∃ errors, s.evaluate.result = .ok errors ∧ errors.map (·.field) = ["contact"] := ⟨_, rfl, rfl⟩
  obtain ⟨hsublist, hnodup⟩ := errors_name_failed hok
  exact ⟨errors, hok, hfields, hsublist, hnodup.1 (by rw [hfields]; decide)⟩

/-- Two specifications for one field may give two errors for it. -/
theorem not_errors_name_once :
    ¬ ∀ (s : Session) (errors : List FieldError), s.evaluate.result = .ok errors → (errors.map (·.field)).Nodup := by
  intro h
  let s : Session := ⟨(Record.ofList [.text "contact" "7"]).find?, .standard,
    [⟨"contact", "required|alpha"⟩, ⟨"contact", "email"⟩]⟩
  obtain ⟨errors, hok, hfields⟩ :
      ∃ errors, s.evaluate.result = .ok errors ∧ errors.map (·.field) = ["contact", "contact"] := ⟨_, rfl, rfl⟩
  have hnodup := h s errors hok
  rw [hfields] at hnodup
  revert hnodup
  decide

end FieldRules.Session
