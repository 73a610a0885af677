import FieldRules.Proofs.Record.Entries
import FieldRules.Proofs.Run.Results

/-!
# The verdict on a record

Validating a record comes to what the session over its fields evaluates to, and the report on it is written unless there
was a fault. The key facts: `Run.Prepared.after_validate_of_error` and `Run.Prepared.after_validate_of_ok` (what a
validation leaves) and `Run.validate_tells_evaluation` (its success or failure and its report tell the errors, and a
submission adds only whether it may proceed).
-/

namespace FieldRules

/-- Adds a text to the output. -/
def Effects.write (e : Effects) (text : String) : Effects := { e with output := e.output ++ text }

namespace Run

/-- The record and the specifications can be read, there are specifications, and the messages of the configuration
name rules that are there. -/
structure Prepared (config : Config) (files : FileTree) (record rules : String) (fields : Record)
    (specs : List FieldSpec) (registry : Registry) : Prop where
  record_eq : Record.documentType.load files record "map of field names to values" = .ok fields
  specs_eq : FieldSpec.listType.load files rules "list of \x7bfield, rules\x7d entries" = .ok specs
  specs_ne_nil : specs ≠ []
  registry_eq : configuredRegistry config = .ok registry

/-- What was written and noted when the session is over: the fields of the record and its warnings. -/
def evaluated (console : Console) (record : String) (fields : Record) (warnings : List Warning) (e : Effects) :
    Effects :=
  { e with
    output := e.output ++ console.info ("Validating record: " ++ record)
    notes := e.notes ++ fields.fields.map fieldNote ++ warnings.map .warning }

section Prepared

variable {config : Config} {record rules : String} {fields : Record} {specs : List FieldSpec} {registry : Registry}
  {e : Effects}

private theorem Prepared.result_validate (h : Prepared config e.files record rules fields specs registry)
    (console : Console) (submit : Bool) :
    (validate console config record rules submit).result e =
      ((Session.mk fields.find? registry specs).evaluate.result.mapError .core >>= verdict) := by
  have hspecs : specs.isEmpty = false := by simpa using h.specs_ne_nil
  rw [Run.result_validate, h.record_eq, h.specs_eq, h.registry_eq]
  simp only [bind, Except.bind, hspecs]
  rfl

private theorem Prepared.after_validate (h : Prepared config e.files record rules fields specs registry)
    (console : Console) (submit : Bool) :
    (validate console config record rules submit).after e =
      let activity := (Session.mk fields.find? registry specs).evaluate
      let left := evaluated console record fields activity.warnings e
      match activity.result with
      | .error _ => left
      | .ok errors =>
        left.write (console.report
          ⟨record, errors.isEmpty, specs.length, if submit then some errors.isEmpty else none, errors⟩) := by
  have hspecs : specs.isEmpty = false := by simpa using h.specs_ne_nil
  -- every step before the session succeeds, so that only its result is left to look at
  unfold validate
  simp only [after_bind, result_print, after_print, result_lift, after_lift, result_files, after_files, h.record_eq,
    h.specs_eq, h.registry_eq, hspecs, Bool.false_eq_true, if_false, result_note, after_note, Session.validate_eq]
  cases (Session.mk fields.find? registry specs).evaluate.result with
  | error fault => rfl
  | ok errors => cases errors <;> rfl

/-- After a fault there is no report. -/
theorem Prepared.after_validate_of_error (h : Prepared config e.files record rules fields specs registry)
    (console : Console) (submit : Bool) {fault : Fault}
    (hfault : (Session.mk fields.find? registry specs).evaluate.result = .error fault) :
    (validate console config record rules submit).after e =
      evaluated console record fields (Session.mk fields.find? registry specs).evaluate.warnings e := by
  simp only [h.after_validate, hfault]

/-- Without a fault there is the report on the errors. -/
theorem Prepared.after_validate_of_ok (h : Prepared config e.files record rules fields specs registry)
    (console : Console) (submit : Bool) {errors : List FieldError}
    (hok : (Session.mk fields.find? registry specs).evaluate.result = .ok errors) :
    (validate console config record rules submit).after e =
      (evaluated console record fields (Session.mk fields.find? registry specs).evaluate.warnings e).write
        (console.report
          ⟨record, errors.isEmpty, specs.length, if submit then some errors.isEmpty else none, errors⟩) := by
  simp only [h.after_validate, hok]

end Prepared

/-! ### What errors and faults make of a validation -/

section Verdict

variable {x : Except Fault (List FieldError)}

private theorem verdict_eq_ok_iff : (x.mapError .core >>= verdict) = .ok () ↔ x = .ok [] := by
  cases x with
  | error fault => simp [bind, Except.bind, Except.mapError]
  | ok errors => cases errors <;> simp [bind, Except.bind, Except.mapError, verdict]

private theorem verdict_eq_failed_iff {n : Nat} :
    (x.mapError .core >>= verdict) = .error (.validationFailed n) ↔
      ∃ errors, x = .ok errors ∧ errors.length = n ∧ 0 < n := by
  cases x with
  | error fault => simp [bind, Except.bind, Except.mapError]
  | ok errors =>
    cases errors with
    | nil =>
      simp only [bind, Except.bind, Except.mapError, verdict, List.isEmpty_nil, if_true, reduceCtorEq, false_iff,
        Except.ok.injEq]
      rintro ⟨errors, rfl, rfl, hpos⟩
      exact Nat.lt_irrefl 0 hpos
    | cons first rest =>
      simp only [bind, Except.bind, Except.mapError, verdict, List.isEmpty_cons, Bool.false_eq_true, if_false,
        Except.error.injEq, Failure.validationFailed.injEq, Except.ok.injEq]
      constructor
      · rintro rfl
        exact ⟨_, rfl, rfl, by simp⟩
      · rintro ⟨errors, rfl, rfl, -⟩
        rfl

private theorem verdict_eq_core_iff {fault : Fault} :
    (x.mapError .core >>= verdict) = .error (.core fault) ↔ x = .error fault := by
  cases x with
  | error fault' => simp [bind, Except.bind, Except.mapError]
  | ok errors => cases errors <;> simp [bind, Except.bind, Except.mapError, verdict]

end Verdict

/-- The validation of a record tells what the session over its fields evaluates to, with a submission or without. It
succeeds when there are no errors, it fails with their number when there are some, and it fails with the fault when
there is one; then the session gives no report, and none is written. Otherwise the report that the session gives, which
is the one that is written, has the errors in order, says whether there are none, and for a submission says the same of
it. -/
theorem validate_tells_evaluation {config : Config} {record rules : String} {fields : Record}
    {specs : List FieldSpec} {registry : Registry} {e : Effects}
    (h : Prepared config e.files record rules fields specs registry) (console : Console) :
    let session : Session := ⟨fields.find?, registry, specs⟩
    let left := evaluated console record fields session.evaluate.warnings e
    (∀ submit,
      ((validate console config record rules submit).result e = .ok () ↔ session.evaluate.result = .ok []) ∧
      (∀ n, (validate console config record rules submit).result e = .error (.validationFailed n) ↔
        ∃ errors, session.evaluate.result = .ok errors ∧ errors.length = n ∧ 0 < n) ∧
      (∀ fault, (validate console config record rules submit).result e = .error (.core fault) ↔
        session.evaluate.result = .error fault) ∧
      (∀ fault, session.evaluate.result = .error fault →
        (session.validate record submit).result = .error fault ∧
        (validate console config record rules submit).after e = left)) ∧
    (∀ errors, session.evaluate.result = .ok errors →
      let report : Report := ⟨record, errors.isEmpty, specs.length, none, errors⟩
      (session.validate record false).result = .ok report ∧
      (session.validate record true).result = .ok { report with submitted := some report.valid } ∧
      (validate console config record rules false).after e = left.write (console.report report) ∧
      (validate console config record rules true).after e =
        left.write (console.report { report with submitted := some report.valid })) := by
  intro session left
  refine ⟨fun submit => ?_, fun errors hok => ?_⟩
  · rw [h.result_validate console submit]
    refine ⟨verdict_eq_ok_iff, fun n => verdict_eq_failed_iff, fun fault => verdict_eq_core_iff, fun fault hfault => ?_⟩
    exact ⟨session.result_validate_of_error record submit hfault, h.after_validate_of_error console submit hfault⟩
  · exact ⟨session.result_validate_of_ok record false hok, session.result_validate_of_ok record true hok,
      h.after_validate_of_ok console false hok, h.after_validate_of_ok console true hok⟩

private theorem load_of_json {α : Type} {type : DocumentType α} {files : FileTree} {path text : String} {a : α}
    (hfile : DocumentType.fileText files path = .ok text) (hpath : Path.isYaml path = false)
    (hread : Json.readWhole type.readJson text = .ok a) (expected : String) :
    type.load files path expected = .ok a := by
  simp only [DocumentType.load, hfile, hpath, DocumentType.read, bind, Except.bind, Bool.false_eq_true, if_false, hread]
  rfl

private def recordText : String := "\x7b\"name\":\"\"\x7d"

private def rulesText : String := "[\x7b\"field\":\"name\",\"rules\":\"required|alpha\"\x7d]"

private def sampleFiles : FileTree :=
  ((FileTree.bare []).setEntry ["record.json"] (.file (some recordText))).setEntry ["rules.json"]
    (.file (some rulesText))

private theorem scan_recordText : Json.Token.scan recordText.toList =
    [.openMap, .string (some "name"), .colon, .string (some ""), .closeMap] := by
  decide +kernel

private theorem scan_rulesText : Json.Token.scan rulesText.toList =
    [.openList, .openMap, .string (some "field"), .colon, .string (some "name"), .comma,
      .string (some "rules"), .colon, .string (some "required|alpha"), .closeMap, .closeList] := by
  decide +kernel

private theorem prepared_sample :
    Prepared {} sampleFiles "record.json" "rules.json" (Record.ofList [.text "name" ""])
      [⟨"name", "required|alpha"⟩] .standard where
  record_eq := by
    have hfile : DocumentType.fileText sampleFiles "record.json" = .ok recordText := by decide +kernel
    refine load_of_json hfile (by decide +kernel) (Json.readWhole_eq_ok_iff.2 ?_) _
    rw [Json.Document.read, scan_recordText]
    refine ⟨Record.readJson_eq_ok_iff.2 ⟨by decide, _, rfl, _, ?_, rfl⟩, rfl⟩
    exact .cons ⟨"name", rfl, by decide +kernel⟩ .nil
  specs_eq := by
    have hfile : DocumentType.fileText sampleFiles "rules.json" = .ok rulesText := by decide +kernel
    refine load_of_json hfile (by decide +kernel) (Json.readWhole_eq_ok_iff.2 ?_) _
    rw [Json.Document.read, scan_rulesText]
    exact ⟨by rfl, by rfl⟩
  specs_ne_nil := by simp
  registry_eq := by rfl

/-- The record fails the specification, and its report says so. -/
theorem validate_tells_evaluation_required :
    let console : Console := ⟨.human, false, false, 0⟩
    let specs : List FieldSpec := [⟨"name", "required|alpha"⟩]
    let e : Effects := { files := sampleFiles }
    Prepared {} e.files "record.json" "rules.json" (Record.ofList [.text "name" ""]) specs .standard ∧
      (∀ submit, (validate console {} "record.json" "rules.json" submit).result e = .error (.validationFailed 1)) ∧
      ∃ report : Report,
        report.valid = false ∧ report.submitted = none ∧ report.errors.map (·.expression) = ["required"] ∧
        ((Session.mk (Record.ofList [.text "name" ""]).find? .standard specs).validate "record.json" true).result =
          .ok { report with submitted := some false } ∧
        ((validate console {} "record.json" "rules.json" true).after e).output =
          "INFO: Validating record: record.json\n" ++ console.report { report with submitted := some false } := by
  intro console specs e
  have hprepared : Prepared {} e.files "record.json" "rules.json" (Record.ofList [.text "name" ""]) specs .standard :=
    prepared_sample
  obtain ⟨errors, hok, hexpressions⟩ : ∃ errors,
      (Session.mk (Record.ofList [.text "name" ""]).find? .standard specs).evaluate.result = .ok errors ∧
        errors.map (·.expression) = ["required"] := ⟨_, rfl, rfl⟩
  have hlength : errors.length = 1 := by simpa using congrArg List.length hexpressions
  have hempty : errors.isEmpty = false := by
    cases errors with
    | nil => simp at hlength
    | cons first rest => rfl
  obtain ⟨hresult, hafter⟩ := validate_tells_evaluation hprepared console
  obtain ⟨-, hreport, -, hwritten⟩ := hafter errors hok
  rw [hempty] at hreport hwritten
  refine ⟨hprepared, fun submit => ?_, ⟨"record.json", false, 1, none, errors⟩, rfl, rfl, hexpressions, hreport, ?_⟩
  · obtain ⟨-, hfailed, -, -⟩ := hresult submit
    exact (hfailed 1).2 ⟨errors, hok, hlength, Nat.one_pos⟩
  · rw [hwritten]
    rfl

end Run

end FieldRules
