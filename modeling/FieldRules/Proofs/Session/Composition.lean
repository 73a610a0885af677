import FieldRules.Proofs.Session.Evaluation
import FieldRules.Proofs.Text.Split

/-!
# Sessions in parts

What a session evaluates to is put together from what its specifications come to, each by itself, and what a rule string
comes to from its parts. The key facts: `Session.walk_append` (one list of specifications after another one),
`Session.errors_eq_findings` and `Session.walk_perm` (the errors are the findings of the specifications, in any order of
these) and `Session.check_bar` (one rule string after another one).
-/

namespace FieldRules

/-- The same error, recorded for another specification. -/
def FieldError.recordedFor (spec : FieldSpec) (e : FieldError) : FieldError := { e with spec }

namespace Session

variable {source : FieldSource} {registry : Registry}

/-! ### One list of specifications after another one -/

/-- Faults of the first list come first, and without one the errors of the second list follow those of the first. -/
theorem walk_append (specs specs' : List FieldSpec) :
    walk source registry (specs ++ specs') =
      match walk source registry specs with
      | (warnings, .error fault) => (warnings, .error fault)
      | (warnings, .ok errors) =>
        (warnings ++ (walk source registry specs').1, (walk source registry specs').2.map (errors ++ ·)) := by
  induction specs with
  | nil =>
    have hid (result : Except Fault (List FieldError)) : result = result.map ([] ++ ·) := by cases result <;> rfl
    exact Prod.ext rfl (hid _)
  | cons spec rest ih =>
    rw [List.cons_append]
    cases hcheck : check source registry spec with
    | error fault => rw [walk_cons_of_error hcheck, walk_cons_of_error hcheck]
    | ok found =>
      rw [walk_cons_of_ok hcheck, walk_cons_of_ok hcheck, ih]
      obtain ⟨warnings, result⟩ := walk source registry rest
      cases result with
      | error fault => rfl
      | ok errors =>
        cases (walk source registry specs').2 <;> simp [Except.map]

/-! ### What each specification comes to -/

/-- The error of a specification checked by itself, if its field fails it. -/
def finding (source : FieldSource) (registry : Registry) (spec : FieldSpec) : Option FieldError :=
  (check source registry spec).toOption.join

private theorem finding_eq_some_iff {spec : FieldSpec} {e : FieldError} :
    finding source registry spec = some e ↔ FailsWith source registry spec e := by
  rw [← check_eq_some_iff, finding]
  cases check source registry spec <;> simp [Except.toOption]

/-- Without a fault, the errors are the findings of the specifications in order. -/
theorem errors_eq_findings {specs : List FieldSpec} {errors : List FieldError}
    (h : (walk source registry specs).2 = .ok errors) : errors = specs.filterMap (finding source registry) := by
  classical
  obtain ⟨-, hspecs, hall⟩ := walk_eq_ok_iff.1 h
  have hown : ∀ e ∈ errors, finding source registry e.spec = some e := fun e he => finding_eq_some_iff.2 (hall e he)
  -- a specification that is passed has no finding, so that leaving it out loses none
  have hfailed (spec : FieldSpec) :
      (if ∃ e, FailsWith source registry spec e then finding source registry spec else none) =
        finding source registry spec := by
    simp only [← finding_eq_some_iff, ← Option.isSome_iff_exists]
    cases finding source registry spec <;> rfl
  calc
    errors = errors.filterMap fun e => finding source registry e.spec := by
      rw [List.filterMap_congr hown, List.filterMap_some]
    _ = (errors.map (·.spec)).filterMap (finding source registry) := by
      rw [List.filterMap_map]
      rfl
    _ = specs.filterMap (finding source registry) := by
      rw [hspecs, List.filterMap_filter]
      simp only [decide_eq_true_eq, hfailed]

private theorem exists_walk_eq_ok_iff {specs : List FieldSpec} :
    (∃ errors, (walk source registry specs).2 = .ok errors) ↔
      ∀ spec ∈ specs, ¬ ∃ fault, EndsWith source registry spec fault := by
  constructor
  · rintro ⟨errors, h⟩
    exact (walk_eq_ok_iff.1 h).1
  · intro h
    cases hresult : (walk source registry specs).2 with
    | ok errors => exact ⟨errors, rfl⟩
    | error fault =>
      obtain ⟨before, spec, after, rfl, -, hends⟩ := walk_eq_error_iff.1 hresult
      exact absurd ⟨fault, hends⟩ (h spec (by simp))

/-- In another order the specifications come to the same findings. -/
theorem walk_perm {specs specs' : List FieldSpec} (hperm : specs.Perm specs') {errors : List FieldError}
    (h : (walk source registry specs).2 = .ok errors) :
    (walk source registry specs').2 = .ok (specs'.filterMap (finding source registry)) := by
  have hends := exists_walk_eq_ok_iff.1 ⟨errors, h⟩
  obtain ⟨errors', h'⟩ : ∃ errors', (walk source registry specs').2 = .ok errors' :=
    exists_walk_eq_ok_iff.2 fun spec hspec => hends spec (hperm.mem_iff.2 hspec)
  rw [h', errors_eq_findings h']

private theorem walk_singleton (spec : FieldSpec) :
    (walk source registry [spec]).2 = (check source registry spec).map Option.toList := by
  cases hcheck : check source registry spec with
  | error fault => rw [walk_cons_of_error hcheck]; rfl
  | ok found => rw [walk_cons_of_ok hcheck]; simp only [walk, Except.map, List.append_nil]

/-- A session over one token, for a field that is there, comes to what the token does. -/
theorem evaluate_token {name token : String} {field : Field} (hfield : source name = some field)
    (hbar : '|' ∉ token.toList) {v : Verdict} (h : Judged registry ⟨name, token⟩ field token v) :
    (Session.mk source registry [⟨name, token⟩]).evaluate.result = v.result.map Option.toList := by
  have hcheck : check source registry ⟨name, token⟩ = v.result := by
    have htokens : RuleCall.tokens token = [token] := Text.split_of_not_mem hbar
    simp only [check, hfield, checkField, htokens, checkTokens_cons h]
    cases v <;> rfl
  unfold evaluate
  rw [← hcheck]
  exact walk_singleton _

/-! ### One rule string after another one -/

section Bar

variable {field : Field}

def Verdict.recordedFor (spec : FieldSpec) : Verdict → Verdict
  | passes => passes
  | fails e => fails (e.recordedFor spec)
  | ends fault => ends fault

private theorem Judged.recordedFor {name rules token : String} {v : Verdict}
    (h : Judged registry ⟨name, rules⟩ field token v) (rules' : String) :
    Judged registry ⟨name, rules'⟩ field token (v.recordedFor ⟨name, rules'⟩) := by
  cases h with
  | malformed hparse => exact .malformed hparse
  | unknown hparse hfind => exact .unknown hparse hfind
  | arity hparse hfind hcount => exact .arity hparse hfind hcount
  | refused hparse hfind hcount heval => exact .refused hparse hfind hcount heval
  | passed hparse hfind hcount heval => exact .passed hparse hfind hcount heval
  | failed hparse hfind hcount heval => exact .failed hparse hfind hcount heval

/-- The rule string that tokens stand in matters to the error that is recorded alone. -/
private theorem checkTokens_recordedFor (name rules rules' : String) (tokens : List String) :
    checkTokens registry ⟨name, rules'⟩ field tokens =
      (checkTokens registry ⟨name, rules⟩ field tokens).map (Option.map (FieldError.recordedFor ⟨name, rules'⟩)) := by
  induction tokens with
  | nil => rfl
  | cons token rest ih =>
    obtain ⟨v, hv⟩ := exists_judged registry ⟨name, rules⟩ field token
    rw [checkTokens_cons hv, checkTokens_cons (hv.recordedFor rules')]
    cases v with
    | passes => exact ih
    | fails e => rfl
    | ends fault => rfl

/-- Tokens are followed by others only when all of them are passed. -/
private theorem checkTokens_append (spec : FieldSpec) (tokens tokens' : List String) :
    checkTokens registry spec field (tokens ++ tokens') =
      match checkTokens registry spec field tokens with
      | .ok none => checkTokens registry spec field tokens'
      | outcome => outcome := by
  induction tokens with
  | nil => rfl
  | cons token rest ih =>
    obtain ⟨v, hv⟩ := exists_judged registry spec field token
    rw [List.cons_append, checkTokens_cons hv, checkTokens_cons hv]
    cases v with
    | passes => exact ih
    | fails e => rfl
    | ends fault => rfl

/-- A rule string after another one and a bar is come to when the field passes the first one. -/
theorem check_bar (name rules rules' : String) :
    check source registry ⟨name, rules ++ "|" ++ rules'⟩ =
      (match check source registry ⟨name, rules⟩ with
        | .ok none => check source registry ⟨name, rules'⟩
        | outcome => outcome).map (Option.map (FieldError.recordedFor ⟨name, rules ++ "|" ++ rules'⟩)) := by
  unfold check
  cases hsource : source name with
  | none => rfl
  | some field =>
    have htokens : RuleCall.tokens (rules ++ "|" ++ rules') = RuleCall.tokens rules ++ RuleCall.tokens rules' :=
      Text.split_append (by decide) rules rules'
    -- a part comes to the same in the whole, but for the specification that is recorded
    have hrecorded (part : String) :
        checkTokens registry ⟨name, rules ++ "|" ++ rules'⟩ field (RuleCall.tokens part) =
          (checkTokens registry ⟨name, part⟩ field (RuleCall.tokens part)).map
            (Option.map (FieldError.recordedFor ⟨name, rules ++ "|" ++ rules'⟩)) :=
      checkTokens_recordedFor name part _ _
    simp only [checkField, htokens, checkTokens_append, hrecorded]
    cases checkTokens registry ⟨name, rules⟩ field (RuleCall.tokens rules) with
    | error fault => rfl
    | ok found => cases found <;> rfl

end Bar

/-- Sessions are put together from parts. The fault of one list of specifications comes before that of another one after
it, and without a fault their errors follow each other. Without a fault, specifications in another order come to the same
errors in that order. A rule string with a bar comes to what the part before the bar comes to, and to what the part after
it comes to when the first one is passed. -/
theorem evaluate_composes (source : FieldSource) (registry : Registry) :
    (∀ specs specs' : List FieldSpec,
      (Session.mk source registry (specs ++ specs')).evaluate.result = (do
        let errors ← (Session.mk source registry specs).evaluate.result
        let errors' ← (Session.mk source registry specs').evaluate.result
        return errors ++ errors')) ∧
    (∀ specs specs' errors, specs.Perm specs' → (Session.mk source registry specs).evaluate.result = .ok errors →
      ∃ errors', (Session.mk source registry specs').evaluate.result = .ok errors' ∧ errors.Perm errors' ∧
        errors = specs.filterMap (finding source registry) ∧ errors' = specs'.filterMap (finding source registry)) ∧
    (∀ name rules rules' : String,
      (Session.mk source registry [⟨name, rules ++ "|" ++ rules'⟩]).evaluate.result =
        (match (Session.mk source registry [⟨name, rules⟩]).evaluate.result with
          | .ok [] => (Session.mk source registry [⟨name, rules'⟩]).evaluate.result
          | outcome => outcome).map (List.map (FieldError.recordedFor ⟨name, rules ++ "|" ++ rules'⟩))) := by
  refine ⟨fun specs specs' => ?_, fun specs specs' errors hperm h => ?_, fun name rules rules' => ?_⟩
  · have happend : (walk source registry (specs ++ specs')).2 = _ := congrArg Prod.snd (walk_append specs specs')
    simp only [evaluate]
    rw [happend]
    obtain ⟨warnings, result⟩ := walk source registry specs
    cases result with
    | error fault => rfl
    | ok errors => cases (walk source registry specs').2 <;> rfl
  · have hfindings := errors_eq_findings h
    refine ⟨_, walk_perm hperm h, ?_, hfindings, rfl⟩
    rw [hfindings]
    exact hperm.filterMap _
  · simp only [evaluate, walk_singleton]
    rw [check_bar]
    cases check source registry ⟨name, rules⟩ with
    | error fault => rfl
    | ok found =>
      cases found with
      | some e => rfl
      | none => cases check source registry ⟨name, rules'⟩ with
        | error fault => rfl
        | ok found => cases found <;> rfl

/-- Two of three fields fail, and the one that comes first in the other order is reported first. -/
theorem evaluate_composes_reordered :
    let source := (Record.ofList [.text "a" "", .text "b" "7", .text "c" "x"]).find?
    let specs : List FieldSpec := [⟨"a", "required"⟩, ⟨"c", "alpha"⟩, ⟨"b", "alpha|email"⟩]
    let specs' : List FieldSpec := [⟨"b", "alpha|email"⟩, ⟨"a", "required"⟩, ⟨"c", "alpha"⟩]
    specs.Perm specs' ∧ ∃ errors errors', (Session.mk source .standard specs).evaluate.result = .ok errors ∧
      (Session.mk source .standard specs').evaluate.result = .ok errors' ∧ errors.Perm errors' ∧
      errors.map (·.field) = ["a", "b"] ∧ errors'.map (·.field) = ["b", "a"] := by
  intro source specs specs'
  have hperm : specs.Perm specs' := by decide
  have hok : (Session.mk source .standard specs).evaluate.result =
      .ok (specs.filterMap (finding source .standard)) := by rfl
  obtain ⟨-, hreorder, -⟩ := evaluate_composes source .standard
  obtain ⟨errors', hok', herrors, -, rfl⟩ := hreorder specs specs' _ hperm hok
  exact ⟨hperm, _, _, hok, hok', herrors, by rfl, by rfl⟩

end Session

end FieldRules
