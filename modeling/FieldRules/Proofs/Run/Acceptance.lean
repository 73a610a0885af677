import FieldRules.Proofs.Registry.Messages
import FieldRules.Proofs.Rule.BuiltIn
import FieldRules.Proofs.Run.Results
import FieldRules.Proofs.Session.Evaluation
import FieldRules.Proofs.Text.Split

/-!
# Accepted tokens

A token is accepted when it reads as a call of a rule that is there, with as many parameters as the rule declares
(`Registry.accepts_iff`). The key facts: `Session.ends_of_rejection` (a session ends at a token that is rejected, with
the fault that it is rejected for), `Run.evaluate_of_accepts` (with the rules of a configuration and accepted tokens
alone, it ends early on bounds in the wrong order alone), and `Run.check_agrees` (what checking rule expressions tells
of validating with them).
-/

namespace FieldRules

/-- Whether a fault says that a call cannot be run, whatever the field holds. -/
def Fault.isOfCall : Fault → Bool
  | malformed .. | unknownRule _ | arity .. => true
  | _ => false

/-- The fault that a session ends with at a token that is rejected: the field is named, and the name in the
specification when the token is no call. -/
def Rejection.inSession (spec : FieldSpec) (field : Field) : Rejection → Fault
  | fault f => f.inField spec.field
  | arity rule parameterCount call => .arity field.name rule call.canonical parameterCount call.params.length

/-- Whether a token is accepted when it is checked. -/
def Registry.accepts (r : Registry) (token : String) : Bool := (Explanation.ofToken (some r) token).isAccepted

section Tokens

variable {r : Registry} {spec : FieldSpec} {field : Field} {token : String}

/-- A token of a rule string is a rule string of this token alone. -/
private theorem RuleCall.tokens_of_mem_tokens {rules : String} (h : token ∈ tokens rules) : tokens token = [token] :=
  Text.split_of_not_mem (Text.not_mem_of_mem_split token h)

private theorem Registry.check_of_find?_eq_none {call : RuleCall} (hfind : r.find? call.name = none) :
    r.check call = .error (.fault (.unknownRule call.name)) := by
  rw [check, lookup_of_find?_eq_none hfind]
  rfl

private theorem Registry.check_of_find? {call : RuleCall} {d : RuleDefinition} (hfind : r.find? call.name = some d) :
    r.check call =
      if d.parameterCount = call.params.length then .ok () else .error (.arity d.name d.parameterCount call) := by
  have harity : d.arity = call.argumentCount ↔ d.parameterCount = call.params.length := Nat.add_right_cancel_iff
  rw [check, lookup_of_find? hfind]
  by_cases hcount : d.parameterCount = call.params.length
  · rw [if_pos hcount]
    exact if_neg (not_not.2 (harity.2 hcount))
  · rw [if_neg hcount]
    exact if_pos (mt harity.1 hcount)

/-- A token is rejected when it is no call, when its rule is not there, and when the rule declares another number of
parameters. -/
private theorem Explanation.rejection_ofToken (r : Registry) (token : String) :
    (ofToken (some r) token).rejection =
      match RuleCall.parse token with
      | .error reason => some (.fault (.malformed token none reason))
      | .ok call =>
        match r.find? call.name with
        | none => some (.fault (.unknownRule call.name))
        | some d =>
          if d.parameterCount = call.params.length then none else some (.arity d.name d.parameterCount call) := by
  unfold ofToken RuleCall.read
  cases RuleCall.parse token with
  | error reason => rfl
  | ok call =>
    simp only [Except.mapError]
    cases hfind : r.find? call.name with
    | none => rw [Registry.check_of_find?_eq_none hfind]
    | some d =>
      rw [Registry.check_of_find? hfind]
      by_cases hcount : d.parameterCount = call.params.length
      · simp only [hcount, if_true]
      · simp only [hcount, if_false]

theorem Registry.accepts_iff :
    r.accepts token ↔ ∃ call d, RuleCall.parse token = .ok call ∧ r.find? call.name = some d ∧
      d.parameterCount = call.params.length := by
  unfold accepts Explanation.isAccepted
  rw [Option.isNone_iff_eq_none, Explanation.rejection_ofToken]
  cases hparse : RuleCall.parse token with
  | error reason => simp
  | ok call => cases hfind : r.find? call.name <;> simp [hfind]

/-- A session ends at a token that is rejected, with the fault that it is rejected for. -/
theorem Session.ends_of_rejection {rejection : Rejection}
    (h : (Explanation.ofToken (some r) token).rejection = some rejection) (spec : FieldSpec) (field : Field) :
    Judged r spec field token (.ends (rejection.inSession spec field)) ∧
      (rejection.inSession spec field).isOfCall := by
  rw [Explanation.rejection_ofToken] at h
  cases hparse : RuleCall.parse token with
  | error reason =>
    obtain rfl : Rejection.fault _ = rejection := by simpa [hparse] using h
    exact ⟨.malformed hparse, rfl⟩
  | ok call =>
    cases hfind : r.find? call.name with
    | none =>
      obtain rfl : Rejection.fault _ = rejection := by simpa [hparse, hfind] using h
      exact ⟨.unknown hparse hfind, rfl⟩
    | some d =>
      by_cases hcount : d.parameterCount = call.params.length
      · simp [hparse, hfind, hcount] at h
      · obtain rfl : Rejection.arity d.name d.parameterCount call = rejection := by
          simpa [hparse, hfind, hcount] using h
        exact ⟨.arity hparse hfind hcount, rfl⟩

private theorem Registry.exists_rejection (h : ¬ r.accepts token) :
    ∃ rejection, (Explanation.ofToken (some r) token).rejection = some rejection :=
  Option.ne_none_iff_exists'.1 (mt Option.isNone_iff_eq_none.2 h)

/-- A session ends at a token that is accepted only when the evaluator of its rule gives up. -/
private theorem Session.Judged.refused_of_accepts (h : r.accepts token) {fault : Fault}
    (hends : Judged r spec field token (.ends fault)) :
    ∃ (call : RuleCall) (d : RuleDefinition), r.find? call.name = some d ∧ d.parameterCount = call.params.length ∧
      d.evaluate field call.params = .error fault := by
  obtain ⟨call, d, hparse, hfind, hcount⟩ := Registry.accepts_iff.1 h
  cases heval : d.evaluate field call.params with
  | error fault' =>
    have heq := hends.unique (.refused hparse hfind hcount heval)
    exact ⟨call, d, hfind, hcount, by rw [heval]; simpa using heq⟩
  | ok valid =>
    cases valid with
    | true => cases hends.unique (.passed hparse hfind hcount heval)
    | false => cases hends.unique (.failed hparse hfind hcount heval)

end Tokens

/-! ### Sessions over a configuration -/

section Sessions

variable {c : Config} {r : Registry}

/-- The evaluators of a configuration give up on bounds in the wrong order alone. -/
private theorem Run.evaluate_eq_error (h : configuredRegistry c = .ok r) {name : String} {d : RuleDefinition}
    (hfind : r.find? name = some d) {field : Field} {params : List RuleParam}
    (hcount : d.parameterCount = params.length) {fault : Fault} (heval : d.evaluate field params = .error fault) :
    ∃ text, fault = .invalidCall "digits_between" text := by
  rw [overrides_configuredRegistry h name] at hfind
  obtain ⟨builtIn, hbuiltIn, rfl⟩ := Option.map_eq_some_iff.1 hfind
  obtain ⟨min, max, -, -, -, rfl⟩ :=
    BuiltIn.evaluate_eq_error (Registry.mem_definitions_of_find? hbuiltIn) hcount.symm heval
  exact ⟨_, rfl⟩

/-- A session whose tokens are all accepted ends early on bounds in the wrong order alone. -/
theorem Run.evaluate_of_accepts (h : configuredRegistry c = .ok r) {specs : List FieldSpec}
    (haccepts : ∀ spec ∈ specs, ∀ token ∈ RuleCall.tokens spec.rules, r.accepts token) (source : FieldSource) :
    (∃ errors, (Session.mk source r specs).evaluate.result = .ok errors) ∨
      ∃ text, (Session.mk source r specs).evaluate.result = .error (.invalidCall "digits_between" text) := by
  cases hresult : (Session.mk source r specs).evaluate.result with
  | ok errors => exact .inl ⟨errors, rfl⟩
  | error fault =>
    right
    obtain ⟨before, spec, after, rfl, -, field, token, ⟨-, earlier, later, htokens, -⟩, hends⟩ :=
      Session.walk_eq_error_iff.1 hresult
    have htoken : r.accepts token := haccepts spec (by simp) token (by simp [htokens])
    obtain ⟨call, d, hfind, hcount, heval⟩ := hends.refused_of_accepts htoken
    obtain ⟨text, rfl⟩ := evaluate_eq_error h hfind hcount heval
    exact ⟨text, rfl⟩

end Sessions

/-- A session that comes to a specification of one token that is rejected, for a field that is there, ends in the fault
of a call that cannot be run. -/
private theorem Session.evaluate_of_not_accepts {r : Registry} {source : FieldSource} {before : List FieldSpec}
    {spec : FieldSpec} {field : Field} {token : String} {errors : List FieldError}
    (hbefore : (Session.mk source r before).evaluate.result = .ok errors) (hfield : source spec.field = some field)
    (htokens : RuleCall.tokens spec.rules = [token]) (h : ¬ r.accepts token) (after : List FieldSpec) :
    ∃ fault, fault.isOfCall ∧ (Session.mk source r (before ++ spec :: after)).evaluate.result = .error fault := by
  obtain ⟨rejection, hrejection⟩ := Registry.exists_rejection h
  obtain ⟨hends, hcall⟩ := ends_of_rejection hrejection spec field
  have hreaches : Reaches source r spec field token := ⟨hfield, [], [], htokens, by simp⟩
  refine ⟨_, hcall, walk_eq_error_iff.2 ⟨before, spec, after, rfl, ?_, field, token, hreaches, hends⟩⟩
  exact (walk_eq_ok_iff.1 hbefore).1

/-- Checking rule expressions succeeds unless some tokens are rejected, and tells how many. -/
private theorem Run.result_check {c : Config} {r : Registry} (h : configuredRegistry c = .ok r) (console : Console)
    (expressions : List String) (e : Effects) :
    (parse console c expressions true).result e =
      let rejected := (expressions.flatMap RuleCall.tokens).countP fun token => !r.accepts token
      if 0 < rejected then .error (.rejected rejected) else .ok () := by
  rw [result_parse, h]
  rfl

/-- Checking rule expressions tells whether validating with them can end in a fault. With the rules of a configuration,
the check succeeds when every token is accepted and otherwise tells how many are not. A session whose tokens are all
accepted ends in a fault only on bounds in the wrong order; a session that comes to a specification of one token that
is rejected, for a field that is there, ends in the fault of a call that cannot be run. -/
theorem Run.check_agrees {c : Config} {r : Registry} (h : configuredRegistry c = .ok r) :
    (∀ console expressions e,
      ((parse console c expressions true).result e = .ok () ↔
        ∀ expression ∈ expressions, ∀ token ∈ RuleCall.tokens expression, r.accepts token) ∧
      ((parse console c expressions true).result e ≠ .ok () →
        (parse console c expressions true).result e =
          .error (.rejected ((expressions.flatMap RuleCall.tokens).countP fun token => !r.accepts token)))) ∧
    (∀ source specs, (∀ spec ∈ specs, ∀ token ∈ RuleCall.tokens spec.rules, r.accepts token) →
      (∃ errors, (Session.mk source r specs).evaluate.result = .ok errors) ∨
        ∃ text, (Session.mk source r specs).evaluate.result = .error (.invalidCall "digits_between" text)) ∧
    (∀ source before name field after rules errors, (Session.mk source r before).evaluate.result = .ok errors →
      source name = some field → ∀ token ∈ RuleCall.tokens rules, ¬ r.accepts token →
      ∃ fault, fault.isOfCall ∧
        (Session.mk source r (before ++ ⟨name, token⟩ :: after)).evaluate.result = .error fault) := by
  refine ⟨fun console expressions e => ?_, fun source specs hspecs => evaluate_of_accepts h hspecs source, ?_⟩
  · rw [result_check h]
    have hall : (∀ expression ∈ expressions, ∀ token ∈ RuleCall.tokens expression, r.accepts token) ↔
        ¬ 0 < (expressions.flatMap RuleCall.tokens).countP fun token => !r.accepts token := by
      simp only [List.countP_pos_iff, List.mem_flatMap, Bool.not_eq_true', not_exists, not_and, Bool.not_eq_false,
        forall_exists_index, and_imp]
      exact ⟨fun h token x hx htoken => h x hx token htoken, fun h x hx token htoken => h token x hx htoken⟩
    rw [hall]
    by_cases hpos : 0 < (expressions.flatMap RuleCall.tokens).countP fun token => !r.accepts token
    · simp [hpos]
    · simp [hpos]
  · intro source before name field after rules errors hbefore hfield token htoken hrejected
    have htokens : RuleCall.tokens token = [token] := RuleCall.tokens_of_mem_tokens htoken
    exact Session.evaluate_of_not_accepts hbefore hfield htokens hrejected after

theorem Run.check_agrees_required :
    let c : Config := { messages := .ofList [("required", "Please fill in %field.")] }
    let r := (c.applyMessages .standard).1
    let source := (Record.ofList [.text "name" "Ada"]).find?
    configuredRegistry c = .ok r ∧
      (∀ console e, (parse console c ["required|email(x)", "nope"] true).result e = .error (.rejected 2)) ∧
      (∀ spec ∈ [FieldSpec.mk "name" "required|digits_between(3,1)"], ∀ token ∈ RuleCall.tokens spec.rules,
        r.accepts token) ∧
      (∃ text, (Session.mk source r [⟨"name", "required|digits_between(3,1)"⟩]).evaluate.result =
        .error (.invalidCall "digits_between" text)) ∧
      ¬ r.accepts "nope" ∧
      ∃ fault, fault.isOfCall ∧
        (Session.mk source r [⟨"name", "required"⟩, ⟨"name", "nope"⟩]).evaluate.result = .error fault := by
  intro c r source
  have hr : configuredRegistry c = .ok r := by rfl
  have haccepts : ∀ spec ∈ [FieldSpec.mk "name" "required|digits_between(3,1)"],
      ∀ token ∈ RuleCall.tokens spec.rules, r.accepts token := by decide +kernel
  have hnope : ¬ r.accepts "nope" := by decide +kernel
  have hfault : ¬ ∃ errors,
      (Session.mk source r [⟨"name", "required|digits_between(3,1)"⟩]).evaluate.result = .ok errors := by
    have hbool : (Session.mk source r [⟨"name", "required|digits_between(3,1)"⟩]).evaluate.result.toBool = false := by
      decide +kernel
    rintro ⟨errors, hok⟩
    rw [hok] at hbool
    cases hbool
  obtain ⟨hcheck, haccepted, hrejected⟩ := check_agrees hr
  refine ⟨hr, fun console e => ?_, haccepts, (haccepted source _ haccepts).resolve_left hfault, hnope, ?_⟩
  · obtain ⟨hok, herror⟩ := hcheck console ["required|email(x)", "nope"] e
    have hsome : ¬ ∀ expression ∈ ["required|email(x)", "nope"],
        ∀ token ∈ RuleCall.tokens expression, r.accepts token := by decide +kernel
    exact herror (mt hok.1 hsome)
  · exact hrejected source [⟨"name", "required"⟩] "name" (.text "name" "Ada") [] "alpha|nope" [] (by rfl) (by rfl) "nope"
      (by decide) hnope

end FieldRules
