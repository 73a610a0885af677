import FieldRules.Session
import Mathlib.Data.List.Basic

/-!
# What a session evaluates to

A token of a rule string has one of three verdicts (`Session.Judged`): the field passes it, the field fails it with an
error, or the walk ends with a fault. A walk reaches a token when the field is there and passes the tokens before it.
The key facts: `Session.checkTokens_eq_iff` (the first token that is not passed decides on a field),
`Session.walk_eq_error_iff` (the first fault that is reached ends the walk) and `Session.walk_eq_ok_iff` (otherwise
there is one error for each specification that the field fails, in order).
-/

namespace FieldRules.Session

/-- The first member of a list that decides is the head, or else the head is passed over. -/
private theorem exists_first_cons {α : Type} {P Q : α → Prop} {x : α} {rest : List α} :
    (∃ before y after, x :: rest = before ++ y :: after ∧ (∀ z ∈ before, P z) ∧ Q y) ↔
      Q x ∨ (P x ∧ ∃ before y after, rest = before ++ y :: after ∧ (∀ z ∈ before, P z) ∧ Q y) := by
  constructor
  · rintro ⟨before, y, after, hlist, hbefore, hy⟩
    cases before with
    | nil =>
      obtain ⟨rfl, rfl⟩ := List.cons.inj hlist
      exact .inl hy
    | cons b before =>
      obtain ⟨rfl, rfl⟩ := List.cons.inj hlist
      obtain ⟨hx, hbefore⟩ := List.forall_mem_cons.1 hbefore
      exact .inr ⟨hx, before, y, after, rfl, hbefore, hy⟩
  · rintro (hx | ⟨hx, before, y, after, rfl, hbefore, hy⟩)
    · exact ⟨[], x, rest, rfl, by simp, hx⟩
    · exact ⟨x :: before, y, after, rfl, List.forall_mem_cons.2 ⟨hx, hbefore⟩, hy⟩

/-! ### Tokens -/

/-- What comes of a token: the field passes it, the field fails it, or the walk ends there. -/
inductive Verdict where
  | passes
  | fails (e : FieldError)
  | ends (fault : Fault)

/-- What a field is found to be when nothing but a token of this verdict decides. -/
def Verdict.result : Verdict → Except Fault (Option FieldError)
  | passes => .ok none
  | fails e => .ok (some e)
  | ends fault => .error fault

private theorem Verdict.result_inj {v w : Verdict} : v.result = w.result ↔ v = w := by
  cases v <;> cases w <;> simp [result]

/-- The verdict on a token: it may be no rule call, name no rule, or have the wrong number of parameters; the
evaluator of its rule may give up; otherwise the field passes or fails. -/
inductive Judged (registry : Registry) (spec : FieldSpec) (field : Field) (token : String) : Verdict → Prop
  | malformed {reason : ParseFault} : RuleCall.parse token = .error reason →
      Judged registry spec field token (.ends (.malformed token (some spec.field) reason))
  | unknown {call : RuleCall} : RuleCall.parse token = .ok call → registry.find? call.name = none →
      Judged registry spec field token (.ends (.unknownRule call.name))
  | arity {call : RuleCall} {d : RuleDefinition} : RuleCall.parse token = .ok call →
      registry.find? call.name = some d → d.parameterCount ≠ call.params.length →
      Judged registry spec field token
        (.ends (.arity field.name d.name call.canonical d.parameterCount call.params.length))
  | refused {call : RuleCall} {d : RuleDefinition} {fault : Fault} : RuleCall.parse token = .ok call →
      registry.find? call.name = some d → d.parameterCount = call.params.length →
      d.evaluate field call.params = .error fault → Judged registry spec field token (.ends fault)
  | passed {call : RuleCall} {d : RuleDefinition} : RuleCall.parse token = .ok call →
      registry.find? call.name = some d → d.parameterCount = call.params.length →
      d.evaluate field call.params = .ok true → Judged registry spec field token .passes
  | failed {call : RuleCall} {d : RuleDefinition} : RuleCall.parse token = .ok call →
      registry.find? call.name = some d → d.parameterCount = call.params.length →
      d.evaluate field call.params = .ok false →
      Judged registry spec field token
        (.fails ⟨spec.field, spec, token, call.params, Message.render d.template spec.field call.params⟩)

section Tokens

variable {registry : Registry} {spec : FieldSpec} {field : Field} {token : String}

theorem exists_judged (registry : Registry) (spec : FieldSpec) (field : Field) (token : String) :
    ∃ v, Judged registry spec field token v := by
  cases hparse : RuleCall.parse token with
  | error reason => exact ⟨_, .malformed hparse⟩
  | ok call =>
    cases hfind : registry.find? call.name with
    | none => exact ⟨_, .unknown hparse hfind⟩
    | some d =>
      by_cases hcount : d.parameterCount = call.params.length
      · cases heval : d.evaluate field call.params with
        | error fault => exact ⟨_, .refused hparse hfind hcount heval⟩
        | ok valid =>
          cases valid with
          | true => exact ⟨_, .passed hparse hfind hcount heval⟩
          | false => exact ⟨_, .failed hparse hfind hcount heval⟩
      · exact ⟨_, .arity hparse hfind hcount⟩

private theorem execute_of_find? {call : RuleCall} {d : RuleDefinition} (hfind : registry.find? call.name = some d)
    (hcount : d.parameterCount = call.params.length) :
    execute registry field call =
      (d.evaluate field call.params).map fun valid => ⟨call.params, if valid then none else some d.template⟩ := by
  have hresolve : registry.resolve field.name call = .ok d := by
    simp only [Registry.resolve, Registry.lookup, hfind]
    exact if_pos hcount
  rw [execute, hresolve]
  cases heval : d.evaluate field call.params <;> simp [heval, bind, Except.bind, Except.map, pure, Except.pure]

private theorem checkTokens_of_parse {call : RuleCall} (hparse : RuleCall.parse token = .ok call)
    (rest : List String) :
    checkTokens registry spec field (token :: rest) =
      execute registry field call >>= fun outcome =>
        match outcome.template with
        | none => checkTokens registry spec field rest
        | some template =>
          .ok (some ⟨spec.field, spec, token, outcome.params,
            Message.render template spec.field outcome.params⟩) := by
  simp only [checkTokens, RuleCall.read, hparse]
  rfl

/-- What the first of some tokens comes to. -/
theorem checkTokens_cons {v : Verdict} (h : Judged registry spec field token v) (rest : List String) :
    checkTokens registry spec field (token :: rest) =
      match v with
      | .passes => checkTokens registry spec field rest
      | _ => v.result := by
  cases h with
  | malformed hparse =>
    simp only [checkTokens, RuleCall.read, hparse]
    rfl
  | unknown hparse hfind =>
    rw [checkTokens_of_parse hparse]
    simp only [execute, Registry.resolve, Registry.lookup, hfind]
    rfl
  | arity hparse hfind hcount =>
    rw [checkTokens_of_parse hparse]
    simp only [execute, Registry.resolve, Registry.lookup, hfind]
    simp only [bind, Except.bind, hcount, if_false]
    rfl
  | refused hparse hfind hcount heval =>
    rw [checkTokens_of_parse hparse, execute_of_find? hfind hcount, heval]
    rfl
  | passed hparse hfind hcount heval =>
    rw [checkTokens_of_parse hparse, execute_of_find? hfind hcount, heval]
    rfl
  | failed hparse hfind hcount heval =>
    rw [checkTokens_of_parse hparse, execute_of_find? hfind hcount, heval]
    rfl

theorem Judged.unique {v w : Verdict} (h : Judged registry spec field token v)
    (h' : Judged registry spec field token w) : w = v := by
  -- a token alone gives its verdict back as the result
  have hv := checkTokens_cons h []
  have hw := checkTokens_cons h' []
  rw [hv] at hw
  cases v <;> cases w <;> simp_all [checkTokens, Verdict.result]

private theorem Judged.iff_eq {v w : Verdict} (h : Judged registry spec field token w) :
    Judged registry spec field token v ↔ v = w := by
  constructor
  · exact h.unique
  · rintro rfl
    exact h

private theorem checkTokens_of_passed (h : Judged registry spec field token .passes) (rest : List String) :
    checkTokens registry spec field (token :: rest) = checkTokens registry spec field rest :=
  checkTokens_cons h rest

private theorem checkTokens_of_not_passed {v : Verdict} (h : Judged registry spec field token v) (hv : v ≠ .passes)
    (rest : List String) : checkTokens registry spec field (token :: rest) = v.result := by
  rw [checkTokens_cons h]
  cases v with
  | passes => contradiction
  | fails e => rfl
  | ends fault => rfl

/-- The first token that the field does not pass decides, and the ones after it do not matter. -/
theorem checkTokens_eq_iff {tokens : List String} {v : Verdict} (hv : v ≠ .passes) :
    checkTokens registry spec field tokens = v.result ↔
      ∃ before token after, tokens = before ++ token :: after ∧ (∀ t ∈ before, Judged registry spec field t .passes) ∧
        Judged registry spec field token v := by
  induction tokens with
  | nil =>
    have hne : checkTokens registry spec field [] ≠ v.result := by
      intro h
      have hpasses : Verdict.passes.result = v.result := h
      exact hv (Verdict.result_inj.1 hpasses).symm
    simp [hne]
  | cons t rest ih =>
    obtain ⟨w, hw⟩ := exists_judged registry spec field t
    rw [exists_first_cons, hw.iff_eq, hw.iff_eq]
    -- either the first token is passed and the rest decides, or it decides itself
    by_cases hpass : w = .passes
    · subst hpass
      rw [checkTokens_of_passed hw, ih]
      simp [hv]
    · rw [checkTokens_of_not_passed hw hpass, Verdict.result_inj, eq_comm]
      simp [Ne.symm hpass]

end Tokens

/-! ### Specifications -/

section Walk

variable {source : FieldSource} {registry : Registry} {spec : FieldSpec}

/-- A walk over a specification reaches a token of its rule string: the field is there and passes every token before
this one. -/
def Reaches (source : FieldSource) (registry : Registry) (spec : FieldSpec) (field : Field) (token : String) : Prop :=
  source spec.field = some field ∧
    ∃ before after, RuleCall.tokens spec.rules = before ++ token :: after ∧
      ∀ t ∈ before, Judged registry spec field t .passes

/-- The first token that is not passed is failed with the error. -/
def FailsWith (source : FieldSource) (registry : Registry) (spec : FieldSpec) (e : FieldError) : Prop :=
  ∃ field token, Reaches source registry spec field token ∧ Judged registry spec field token (.fails e)

/-- The first token that is not passed ends the walk with the fault. -/
def EndsWith (source : FieldSource) (registry : Registry) (spec : FieldSpec) (fault : Fault) : Prop :=
  ∃ field token, Reaches source registry spec field token ∧ Judged registry spec field token (.ends fault)

/-- What a specification comes to, when its field may be absent. -/
def check (source : FieldSource) (registry : Registry) (spec : FieldSpec) : Except Fault (Option FieldError) :=
  match source spec.field with
  | none => .ok none
  | some field => checkField registry spec field

private theorem check_eq_iff {v : Verdict} (hv : v ≠ .passes) :
    check source registry spec = v.result ↔
      ∃ field token, Reaches source registry spec field token ∧ Judged registry spec field token v := by
  unfold check Reaches
  cases hfield : source spec.field with
  | none =>
    have hne : .ok none ≠ v.result := mt (Verdict.result_inj (v := .passes)).1 hv.symm
    simpa using hne
  | some field =>
    simp only [checkField, checkTokens_eq_iff hv, Option.some.injEq]
    constructor
    · rintro ⟨before, token, after, htokens, hbefore, htoken⟩
      exact ⟨field, token, ⟨rfl, before, after, htokens, hbefore⟩, htoken⟩
    · rintro ⟨_, token, ⟨rfl, before, after, htokens, hbefore⟩, htoken⟩
      exact ⟨before, token, after, htokens, hbefore, htoken⟩

private theorem check_eq_error_iff {fault : Fault} :
    check source registry spec = .error fault ↔ EndsWith source registry spec fault :=
  check_eq_iff (v := .ends fault) (by simp)

theorem check_eq_some_iff {e : FieldError} :
    check source registry spec = .ok (some e) ↔ FailsWith source registry spec e :=
  check_eq_iff (v := .fails e) (by simp)

private theorem not_ends_of_check {found : Option FieldError} (h : check source registry spec = .ok found) :
    ¬ ∃ fault, EndsWith source registry spec fault := by
  rintro ⟨fault, hends⟩
  rw [← check_eq_error_iff, h] at hends
  cases hends

/-- The error of a field names the specification that it was checked under. -/
private theorem FailsWith.spec_eq {e : FieldError} (h : FailsWith source registry spec e) : e.spec = spec := by
  obtain ⟨field, token, -, hjudged⟩ := h
  cases hjudged
  rfl

theorem FailsWith.field_eq {spec : FieldSpec} {e : FieldError} (h : FailsWith source registry spec e) :
    e.field = spec.field := by
  obtain ⟨field, token, -, hjudged⟩ := h
  cases hjudged
  rfl

private theorem FailsWith.unique {e e' : FieldError} (h : FailsWith source registry spec e)
    (h' : FailsWith source registry spec e') : e' = e := by
  have hcheck := (check_eq_some_iff.2 h').symm.trans (check_eq_some_iff.2 h)
  simpa using hcheck

/-! ### Walks -/

/-- The warnings for the specifications whose fields are absent. -/
def absences (source : FieldSource) (specs : List FieldSpec) : List Warning :=
  (specs.filter fun spec => (source spec.field).isNone).map fun spec => .absentField spec.field

theorem walk_cons_of_error {fault : Fault} (h : check source registry spec = .error fault) (rest : List FieldSpec) :
    walk source registry (spec :: rest) = ([], .error fault) := by
  unfold check at h
  unfold walk
  cases hfield : source spec.field with
  | none => simp [hfield] at h
  | some field =>
    rw [hfield] at h
    simp only at h
    simp [h]

theorem walk_cons_of_ok {found : Option FieldError} (h : check source registry spec = .ok found)
    (rest : List FieldSpec) :
    walk source registry (spec :: rest) =
      (absences source [spec] ++ (walk source registry rest).1,
        (walk source registry rest).2.map (found.toList ++ ·)) := by
  unfold check at h
  rw [walk]
  cases hfield : source spec.field with
  | none =>
    rw [hfield] at h
    obtain rfl := Except.ok.inj h
    cases hrest : (walk source registry rest).2 <;> simp [absences, hfield, Except.map, hrest]
  | some field =>
    rw [hfield] at h
    simp only at h
    simp [h, absences, hfield]

private theorem map_append_eq_error_iff {found : Option FieldError} {result : Except Fault (List FieldError)}
    {fault : Fault} : result.map (found.toList ++ ·) = .error fault ↔ result = .error fault := by
  cases result <;> simp [Except.map]

private theorem map_append_eq_ok_iff {found : Option FieldError} {result : Except Fault (List FieldError)}
    {errors : List FieldError} :
    result.map (found.toList ++ ·) = .ok errors ↔
      ∃ others, result = .ok others ∧ found.toList ++ others = errors := by
  cases result <;> simp [Except.map]

/-- The first fault that is reached ends the walk. -/
theorem walk_eq_error_iff {specs : List FieldSpec} {fault : Fault} :
    (walk source registry specs).2 = .error fault ↔
      ∃ before spec after, specs = before ++ spec :: after ∧
        (∀ x ∈ before, ¬ ∃ fault, EndsWith source registry x fault) ∧ EndsWith source registry spec fault := by
  induction specs with
  | nil => simp [walk]
  | cons x rest ih =>
    rw [exists_first_cons, ← check_eq_error_iff]
    cases hcheck : check source registry x with
    | error fault' =>
      have hends : ∃ fault, EndsWith source registry x fault := ⟨fault', check_eq_error_iff.1 hcheck⟩
      rw [walk_cons_of_error hcheck]
      simp [hends]
    | ok found =>
      have hnot := not_ends_of_check hcheck
      rw [walk_cons_of_ok hcheck, map_append_eq_error_iff, ih]
      simp only [hnot, not_false_eq_true, true_and, reduceCtorEq, false_or]

open Classical in
/-- Without a fault there is one error for each specification that the field fails, in order. -/
theorem walk_eq_ok_iff {specs : List FieldSpec} {errors : List FieldError} :
    (walk source registry specs).2 = .ok errors ↔
      (∀ spec ∈ specs, ¬ ∃ fault, EndsWith source registry spec fault) ∧
        errors.map (·.spec) = specs.filter (fun spec => ∃ e, FailsWith source registry spec e) ∧
        ∀ e ∈ errors, FailsWith source registry e.spec e := by
  induction specs generalizing errors with
  | nil =>
    simp only [walk, Except.ok.injEq, List.filter_nil, List.map_eq_nil_iff]
    constructor
    · rintro rfl
      simp
    · exact fun h => h.2.1.symm
  | cons spec rest ih =>
    cases hcheck : check source registry spec with
    | error fault =>
      have hends : ∃ fault, EndsWith source registry spec fault := ⟨fault, check_eq_error_iff.1 hcheck⟩
      rw [walk_cons_of_error hcheck, List.forall_mem_cons]
      constructor
      · intro h
        cases h
      · exact fun h => absurd hends h.1.1
    | ok found =>
      rw [walk_cons_of_ok hcheck, List.forall_mem_cons, and_iff_right (not_ends_of_check hcheck),
        map_append_eq_ok_iff]
      simp only [ih]
      cases found with
      | none =>
        -- the specification is filtered out and adds no error
        have hfails : ¬ ∃ e, FailsWith source registry spec e := by
          rintro ⟨e, he⟩
          cases hcheck.symm.trans (check_eq_some_iff.2 he)
        rw [List.filter_cons_of_neg (by simpa using hfails)]
        simp
      | some e =>
        -- the first error is the one of this specification, and the others are those of the rest
        have he := check_eq_some_iff.1 hcheck
        rw [List.filter_cons_of_pos (by simpa using ⟨e, he⟩)]
        constructor
        · rintro ⟨others, ⟨hends, hspecs, hall⟩, rfl⟩
          refine ⟨hends, ?_, List.forall_mem_cons.2 ⟨?_, hall⟩⟩
          · rw [Option.toList_some, List.cons_append, List.map_cons, he.spec_eq]
            exact congrArg _ hspecs
          · rwa [he.spec_eq]
        · rintro ⟨hends, hspecs, hall⟩
          obtain ⟨e', others, rfl, hspec, hothers⟩ := List.map_eq_cons_iff.1 hspecs
          obtain ⟨he', hall⟩ := List.forall_mem_cons.1 hall
          rw [hspec] at he'
          exact ⟨others, ⟨hends, hothers, hall⟩, by rw [he.unique he']; rfl⟩

open Classical in
/-- The specifications up to the first fault give the warnings. -/
theorem walk_warnings (specs : List FieldSpec) :
    (walk source registry specs).1 =
      absences source (specs.takeWhile fun spec => ¬ ∃ fault, EndsWith source registry spec fault) := by
  induction specs with
  | nil => rfl
  | cons spec rest ih =>
    cases hcheck : check source registry spec with
    | error fault =>
      have hends : ∃ fault, EndsWith source registry spec fault := ⟨fault, check_eq_error_iff.1 hcheck⟩
      rw [walk_cons_of_error hcheck, List.takeWhile_cons_of_neg (by simpa using hends)]
      rfl
    | ok found =>
      have hnot := not_ends_of_check hcheck
      rw [walk_cons_of_ok hcheck, ih, List.takeWhile_cons_of_pos (by simpa using hnot)]
      simp only [absences, ← List.map_append, ← List.filter_append, List.singleton_append]

/-- Nothing after the specification of the first fault matters. -/
private theorem walk_append_of_ends {fault : Fault} (h : EndsWith source registry spec fault)
    (before after : List FieldSpec) :
    walk source registry (before ++ spec :: after) = walk source registry (before ++ [spec]) := by
  have hcheck := check_eq_error_iff.2 h
  induction before with
  | nil => rw [List.nil_append, List.nil_append, walk_cons_of_error hcheck, walk_cons_of_error hcheck]
  | cons x rest ih =>
    rw [List.cons_append, List.cons_append]
    cases hx : check source registry x with
    | error fault' => rw [walk_cons_of_error hx, walk_cons_of_error hx]
    | ok found => rw [walk_cons_of_ok hx, walk_cons_of_ok hx, ih]

end Walk

open Classical in
/-- What a session evaluates to. The result is the first fault that a walk over the specifications reaches; without
one there is an error for each specification that its field fails, in order, and the error tells the first token
that is failed. Every specification before the one that ends the walk whose field is absent gives a warning,
nothing is handed on, and nothing after the first fault matters. -/
theorem evaluate_walks (s : Session) :
    (∀ fault, s.evaluate.result = .error fault ↔
      ∃ before spec after, s.specs = before ++ spec :: after ∧
        (∀ x ∈ before, ¬ ∃ fault, EndsWith s.source s.registry x fault) ∧ EndsWith s.source s.registry spec fault) ∧
    (∀ errors, s.evaluate.result = .ok errors ↔
      (∀ spec ∈ s.specs, ¬ ∃ fault, EndsWith s.source s.registry spec fault) ∧
        errors.map (·.spec) = s.specs.filter (fun spec => ∃ e, FailsWith s.source s.registry spec e) ∧
        ∀ e ∈ errors, FailsWith s.source s.registry e.spec e) ∧
    s.evaluate.warnings =
      absences s.source (s.specs.takeWhile fun spec => ¬ ∃ fault, EndsWith s.source s.registry spec fault) ∧
    s.evaluate.events = [] ∧
    (∀ before spec after fault, s.specs = before ++ spec :: after → EndsWith s.source s.registry spec fault →
      (Session.mk s.source s.registry (before ++ [spec])).evaluate = s.evaluate) := by
  refine ⟨fun fault => walk_eq_error_iff, fun errors => walk_eq_ok_iff, walk_warnings s.specs, rfl, ?_⟩
  intro before spec after fault hspecs hends
  unfold evaluate
  simp only [hspecs, walk_append_of_ends hends before after]

end FieldRules.Session
