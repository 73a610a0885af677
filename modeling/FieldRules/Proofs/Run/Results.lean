import FieldRules.Proofs.Session.Submission
import FieldRules.Run.Commands

/-!
# What commands come to

A command may print and note things on its way; here is what it comes to in the end. The key facts:
`Session.validate_eq` (the report of a record tells what the session evaluates to) and `Run.result_validate` and
`Run.result_parse` (the two commands, as far as their success or failure goes).
-/

namespace FieldRules

/-- The report on a record tells what its session evaluates to, with a submission or without. -/
theorem Session.validate_eq (s : Session) (name : String) (submit : Bool) :
    s.validate name submit =
      ⟨s.evaluate.warnings, handedOn s.evaluate.result, s.evaluate.result.map fun errors =>
        { record := name, valid := errors.isEmpty, checked := s.specs.length
          submitted := if submit then some errors.isEmpty else none, errors }⟩ := by
  -- without an action a submission is a run
  have hsubmit : ((SubmitGuard.mk s none).submit ()).1 = s.run := by
    rw [SubmitGuard.submit_eq]
    split
    · rename_i hpassed
      rw [run_eq]
      cases hresult : s.evaluate.result with
      | error fault => simp [isPassed, hresult] at hpassed
      | ok errors =>
        simp only [isPassed, hresult, List.isEmpty_iff] at hpassed
        subst hpassed
        rfl
    · rfl
  unfold validate
  simp only [hsubmit, ite_self]
  rw [run_eq]
  cases s.evaluate.result with
  | error fault => rfl
  | ok errors => simp [handedOn, reportedErrors, Except.map]

theorem Session.result_validate_of_error (s : Session) (name : String) (submit : Bool) {fault : Fault}
    (h : s.evaluate.result = .error fault) : (s.validate name submit).result = .error fault := by
  rw [validate_eq, h]
  rfl

theorem Session.result_validate_of_ok (s : Session) (name : String) (submit : Bool) {errors : List FieldError}
    (h : s.evaluate.result = .ok errors) :
    (s.validate name submit).result =
      .ok ⟨name, errors.isEmpty, s.specs.length, if submit then some errors.isEmpty else none, errors⟩ := by
  rw [validate_eq, h]
  rfl

namespace Run

variable {α β : Type}

/-- What a command comes to from where it starts. -/
def result (m : Run α) (e : Effects) : Except Failure α := (m.run.run e).1

/-- What a command leaves. -/
def after (m : Run α) (e : Effects) : Effects := (m.run.run e).2

@[simp] theorem result_pure (a : α) (e : Effects) : result (pure a) e = .ok a := rfl

@[simp] theorem after_pure (a : α) (e : Effects) : (pure a : Run α).after e = e := rfl

@[simp] theorem result_throw (failure : Failure) (e : Effects) :
    (throw failure : Run α).result e = .error failure := rfl

@[simp] theorem after_throw (failure : Failure) (e : Effects) : (throw failure : Run α).after e = e := rfl

private theorem run_bind (m : Run α) (f : α → Run β) (e : Effects) :
    (m >>= f).run.run e =
      match m.run.run e with
      | (.ok a, e') => (f a).run.run e'
      | (.error failure, e') => (.error failure, e') := by
  obtain ⟨x, e', hm⟩ : ∃ x e', m.run.run e = (x, e') := ⟨_, _, rfl⟩
  simp only [ExceptT.run_bind, StateT.run_bind, hm]
  cases x <;> rfl

theorem result_bind (m : Run α) (f : α → Run β) (e : Effects) :
    result (m >>= f) e = m.result e >>= fun a => (f a).result (m.after e) := by
  rw [result, run_bind, result, after]
  obtain ⟨x, e'⟩ := m.run.run e
  cases x <;> rfl

/-- A sequence leaves what its first part leaves when that fails. -/
theorem after_bind (m : Run α) (f : α → Run β) (e : Effects) :
    (m >>= f).after e =
      match m.result e with
      | .ok a => (f a).after (m.after e)
      | .error _ => m.after e := by
  rw [after, run_bind, result, after]
  obtain ⟨x, e'⟩ := m.run.run e
  cases x <;> rfl

@[simp] theorem result_ite (p : Prop) [Decidable p] (m m' : Run α) (e : Effects) :
    (if p then m else m').result e = if p then m.result e else m'.result e :=
  apply_ite (fun m : Run α => m.result e) p m m'

@[simp] theorem after_ite (p : Prop) [Decidable p] (m m' : Run α) (e : Effects) :
    (if p then m else m').after e = if p then m.after e else m'.after e :=
  apply_ite (fun m : Run α => m.after e) p m m'

@[simp] theorem result_print (text : String) (e : Effects) : (print text).result e = .ok () := rfl

@[simp] theorem after_print (text : String) (e : Effects) :
    (print text).after e = { e with output := e.output ++ text } := rfl

@[simp] theorem result_note (notes : List LogNote) (e : Effects) : (note notes).result e = .ok () := rfl

@[simp] theorem after_note (l : List LogNote) (e : Effects) : (note l).after e = { e with notes := e.notes ++ l } := rfl

@[simp] theorem result_files (e : Effects) : files.result e = .ok e.files := rfl

@[simp] theorem after_files (e : Effects) : files.after e = e := rfl

@[simp] theorem result_lift (x : Except Failure α) (e : Effects) : (lift x).result e = x := by
  cases x <;> rfl

@[simp] theorem after_lift (x : Except Failure α) (e : Effects) : (lift x).after e = e := by
  cases x <;> rfl

private theorem ok_bind (a : α) (f : α → Except Failure β) : (Except.ok a >>= f) = f a := rfl

/-- What the errors of a record make of its validation. -/
def verdict (errors : List FieldError) : Except Failure Unit :=
  if errors.isEmpty then .ok () else .error (.validationFailed errors.length)

/-- What the validation of a record comes to. -/
theorem result_validate (console : Console) (config : Config) (record rules : String) (submit : Bool) (e : Effects) :
    (validate console config record rules submit).result e = (do
      let r ← Record.documentType.load e.files record "map of field names to values"
      let specs ← FieldSpec.listType.load e.files rules "list of \x7bfield, rules\x7d entries"
      if specs.isEmpty then
        .error (.invalidArguments (rules ++ " defines no field specs, nothing would be validated"))
      else do
        let registry ← configuredRegistry config
        let errors ← (Session.mk r.find? registry specs).evaluate.result.mapError .core
        verdict errors) := by
  unfold validate
  simp only [result_bind, result_print, after_print, result_lift, after_lift, result_files, after_files, result_ite,
    result_throw, result_note, after_note, result_pure, Session.validate_eq, ok_bind]
  cases Record.documentType.load e.files record "map of field names to values" with
  | error failure => rfl
  | ok r =>
    simp only [ok_bind]
    cases FieldSpec.listType.load e.files rules "list of \x7bfield, rules\x7d entries" with
    | error failure => rfl
    | ok specs =>
      simp only [ok_bind]
      cases specs with
      | nil => rfl
      | cons spec rest =>
        cases configuredRegistry config with
        | error failure => rfl
        | ok registry =>
          simp only [List.isEmpty_cons, ok_bind]
          cases (Session.mk r.find? registry (spec :: rest)).evaluate.result with
          | error fault => rfl
          | ok errors => cases errors <;> rfl

/-- What the parsing of rule expressions comes to. -/
theorem result_parse (console : Console) (config : Config) (expressions : List String) (check : Bool) (e : Effects) :
    (parse console config expressions check).result e = (do
      let registry ← (if check then some <$> configuredRegistry config else .ok none : Except Failure (Option Registry))
      let rejected := (expressions.flatMap RuleCall.tokens).countP fun t => !(Explanation.ofToken registry t).isAccepted
      if 0 < rejected then throw (.rejected rejected)) := by
  unfold parse
  simp only [result_bind, result_print, after_print, result_lift, after_lift, result_ite, result_throw, result_pure,
    List.countP_map]
  rfl

end Run

end FieldRules
