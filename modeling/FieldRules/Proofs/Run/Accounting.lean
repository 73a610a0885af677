import FieldRules.Proofs.Run.Results
import FieldRules.Proofs.Session.Evaluation
import Mathlib.Data.List.TakeWhile

/-!
# The numbers of a report

How the numbers that a report gives go together with the warnings of its run. The key facts: `Session.warnings_of_ok`
(without a fault every absent field is warned of), `Session.length_errors_add` (no specification gives both a warning and
an error) and `Session.validate_accounts`.
-/

namespace FieldRules.Session

variable {s : Session} {errors : List FieldError}

/-- Without a fault every specification whose field is absent gives a warning. -/
theorem warnings_of_ok (h : s.evaluate.result = .ok errors) : s.evaluate.warnings = absences s.source s.specs := by
  have hends := (walk_eq_ok_iff.1 h).1
  have hwarnings : (walk s.source s.registry s.specs).1 = _ := walk_warnings s.specs
  rw [List.takeWhile_eq_self_iff.2 (by simpa using hends)] at hwarnings
  exact hwarnings

/-- A field that is failed is there, so the specifications that give an error are apart from those that give a
warning. -/
theorem length_errors_add (h : s.evaluate.result = .ok errors) :
    errors.length + (absences s.source s.specs).length ≤ s.specs.length := by
  classical
  obtain ⟨-, hspecs, -⟩ := walk_eq_ok_iff.1 h
  have herrors : errors.length = s.specs.countP fun spec => ∃ e, FailsWith s.source s.registry spec e := by
    rw [List.countP_eq_length_filter, ← hspecs, List.length_map]
  have habsent : (absences s.source s.specs).length = s.specs.countP fun spec => (s.source spec.field).isNone := by
    rw [absences, List.length_map, List.countP_eq_length_filter]
  have hpresent : (s.specs.countP fun spec => ∃ e, FailsWith s.source s.registry spec e) ≤
      s.specs.countP fun spec => ¬ (s.source spec.field).isNone := by
    refine List.countP_mono_left fun spec _ hfails => ?_
    obtain ⟨e, field, token, ⟨hfield, -⟩, -⟩ := of_decide_eq_true hfails
    simp [hfield]
  have hsplit := List.length_eq_countP_add_countP (fun spec => (s.source spec.field).isNone) (l := s.specs)
  omega

/-- The report on a record counts every specification it was given. Those whose field is absent are passed over with a
warning each, and none of them gives an error. So the count and the warnings add up to the number of specifications
exactly when no field is absent. -/
theorem validate_accounts {name : String} {submit : Bool} {report : Report}
    (h : (s.validate name submit).result = .ok report) :
    let warnings := (s.validate name submit).warnings
    report.checked = s.specs.length ∧
      warnings = absences s.source s.specs ∧
      report.errors.length + warnings.length ≤ report.checked ∧
      (report.checked + warnings.length = s.specs.length ↔ ∀ spec ∈ s.specs, (s.source spec.field).isSome) := by
  intro warnings
  cases hresult : s.evaluate.result with
  | error fault =>
    rw [s.result_validate_of_error name submit hresult] at h
    cases h
  | ok errors =>
    rw [s.result_validate_of_ok name submit hresult] at h
    obtain rfl := Except.ok.inj h
    have hwarnings : warnings = absences s.source s.specs := by
      rw [← warnings_of_ok hresult]
      simp only [warnings, validate_eq]
    refine ⟨rfl, hwarnings, ?_, ?_⟩
    · rw [hwarnings]
      exact length_errors_add hresult
    · rw [hwarnings, Nat.add_eq_left, List.length_eq_zero_iff, absences, List.map_eq_nil_iff, List.filter_eq_nil_iff]
      simp [Option.isSome_iff_ne_none]

/-- A field is there, fails, and is counted. -/
theorem validate_accounts_required :
    let s : Session := ⟨(Record.ofList [.text "name" ""]).find?, .standard, [⟨"name", "required|alpha"⟩]⟩
    ∃ report, (s.validate "r.json" false).result = .ok report ∧ report.errors.length = 1 ∧
      report.checked + (s.validate "r.json" false).warnings.length = 1 := by
  intro s
  obtain ⟨report, hreport, herrors⟩ : ∃ report, (s.validate "r.json" false).result = .ok report ∧
    report.errors.length = 1 := ⟨_, rfl, rfl⟩
  obtain ⟨-, -, -, hcount⟩ := validate_accounts hreport
  exact ⟨report, hreport, herrors, hcount.2 (List.forall_mem_singleton.2 rfl)⟩

/-- A specification whose field is absent is counted, although it was passed over. -/
theorem not_validate_accounts_absent :
    let s : Session := ⟨(Record.ofList [.text "name" "Ada"]).find?, .standard,
      [⟨"name", "required"⟩, ⟨"phone", "required"⟩]⟩
    ∃ report, (s.validate "r.json" false).result = .ok report ∧
      (s.validate "r.json" false).warnings = [.absentField "phone"] ∧ report.checked = 2 ∧
      report.checked + (s.validate "r.json" false).warnings.length ≠ s.specs.length :=
  ⟨_, rfl, rfl, rfl, by decide⟩

end FieldRules.Session
