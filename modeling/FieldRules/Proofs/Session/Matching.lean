import FieldRules.Proofs.Registry.Lookup
import FieldRules.Proofs.Session.Evaluation
import Mathlib.Data.Option.Basic

/-!
# Sessions over matching registries

Two registries match when they have the same rules up to the templates, where evaluators need to agree only on as many
parameters as the rule declares (`Registry.Matches`). The key facts: `Session.Judged.matching` (a token is judged alike
under both) and `Session.walk_matching` (the same fault, or errors that differ in their messages alone, and the same
warnings).
-/

namespace FieldRules

structure RuleDefinition.Matches (d d' : RuleDefinition) : Prop where
  parameterCount : d'.parameterCount = d.parameterCount
  evaluate : ∀ (field : Field) (params : List RuleParam), params.length = d.parameterCount →
    d'.evaluate field params = d.evaluate field params

def Registry.Matches (r r' : Registry) : Prop :=
  ∀ name, Option.Rel RuleDefinition.Matches (r.find? name) (r'.find? name)

private theorem Registry.Matches.find?_eq_none {r r' : Registry} (h : r.Matches r') {name : String}
    (hfind : r.find? name = none) : r'.find? name = none := by
  have hname := h name
  rw [hfind] at hname
  cases hfind' : r'.find? name with
  | none => rfl
  | some d' =>
    rw [hfind'] at hname
    cases hname

private theorem Registry.Matches.find?_eq_some {r r' : Registry} (h : r.Matches r') {name : String} {d : RuleDefinition}
    (hfind : r.find? name = some d) : ∃ d', r'.find? name = some d' ∧ d'.name = d.name ∧ d.Matches d' := by
  have hname := h name
  rw [hfind] at hname
  cases hfind' : r'.find? name with
  | none =>
    rw [hfind'] at hname
    cases hname
  | some d' =>
    rw [hfind'] at hname
    cases hname with
    | some hd => exact ⟨d', rfl, by rw [name_eq_of_find? hfind', name_eq_of_find? hfind], hd⟩

/-- Two errors that differ in their messages alone, which are those of one rule in either registry. -/
structure FieldError.Counterpart (r r' : Registry) (e e' : FieldError) : Prop where
  field : e'.field = e.field
  spec : e'.spec = e.spec
  expression : e'.expression = e.expression
  params : e'.params = e.params
  messages : ∃ call d d', RuleCall.parse e.expression = .ok call ∧ r.find? call.name = some d ∧
    r'.find? call.name = some d' ∧ e.message = Message.render d.template e.field e.params ∧
    e'.message = Message.render d'.template e.field e.params

namespace Session

/-- Two results that are the same fault, or else are related. -/
inductive Alike {α β : Type} (R : α → β → Prop) : Except Fault α → Except Fault β → Prop where
  | fault (fault : Fault) : Alike R (.error fault) (.error fault)
  | ok {a : α} {b : β} : R a b → Alike R (.ok a) (.ok b)

section Tokens

variable {r r' : Registry} {spec : FieldSpec} {field : Field} {token : String}

/-- A token is judged alike under matching registries. -/
theorem Judged.matching (hr : r.Matches r') {v : Verdict} (h : Judged r spec field token v) :
    ∃ v', Judged r' spec field token v' ∧
      match v with
      | .passes => v' = .passes
      | .fails e => ∃ e', v' = .fails e' ∧ FieldError.Counterpart r r' e e'
      | .ends fault => v' = .ends fault := by
  cases h with
  | malformed hparse => exact ⟨_, .malformed hparse, rfl⟩
  | unknown hparse hfind => exact ⟨_, .unknown hparse (hr.find?_eq_none hfind), rfl⟩
  | @arity call d hparse hfind hcount =>
    obtain ⟨d', hfind', hname, hd⟩ := hr.find?_eq_some hfind
    refine ⟨_, .arity hparse hfind' (by rwa [hd.parameterCount]), ?_⟩
    rw [hname, hd.parameterCount]
  | @refused call d fault hparse hfind hcount heval =>
    obtain ⟨d', hfind', -, hd⟩ := hr.find?_eq_some hfind
    refine ⟨_, .refused hparse hfind' (by rwa [hd.parameterCount]) ?_, rfl⟩
    rwa [hd.evaluate field call.params hcount.symm]
  | @passed call d hparse hfind hcount heval =>
    obtain ⟨d', hfind', -, hd⟩ := hr.find?_eq_some hfind
    refine ⟨_, .passed hparse hfind' (by rwa [hd.parameterCount]) ?_, rfl⟩
    rwa [hd.evaluate field call.params hcount.symm]
  | @failed call d hparse hfind hcount heval =>
    obtain ⟨d', hfind', -, hd⟩ := hr.find?_eq_some hfind
    have heval' : d'.evaluate field call.params = .ok false := by rwa [hd.evaluate field call.params hcount.symm]
    refine ⟨_, .failed hparse hfind' (by rwa [hd.parameterCount]) heval', _, rfl, ?_⟩
    exact ⟨rfl, rfl, rfl, rfl, call, d, d', hparse, hfind, hfind', rfl, rfl⟩

private theorem checkTokens_matching (hr : r.Matches r') (spec : FieldSpec) (field : Field) (tokens : List String) :
    Alike (Option.Rel (FieldError.Counterpart r r')) (checkTokens r spec field tokens)
      (checkTokens r' spec field tokens) := by
  induction tokens with
  | nil => exact .ok .none
  | cons token rest ih =>
    obtain ⟨v, hv⟩ := exists_judged r spec field token
    obtain ⟨v', hv', hmatch⟩ := hv.matching hr
    rw [checkTokens_cons hv, checkTokens_cons hv']
    cases v with
    | passes =>
      subst hmatch
      exact ih
    | fails e =>
      obtain ⟨e', rfl, he⟩ := hmatch
      exact .ok (.some he)
    | ends fault =>
      subst hmatch
      exact .fault fault

end Tokens

section Walk

variable {source : FieldSource} {r r' : Registry}

private theorem check_matching (hr : r.Matches r') (source : FieldSource) (spec : FieldSpec) :
    Alike (Option.Rel (FieldError.Counterpart r r')) (check source r spec) (check source r' spec) := by
  unfold check
  cases source spec.field with
  | none => exact .ok .none
  | some field => exact checkTokens_matching hr spec field _

/-- Walks under matching registries give the same warnings, and the same fault or errors that differ in their messages
alone. -/
theorem walk_matching (hr : r.Matches r') (source : FieldSource) (specs : List FieldSpec) :
    (walk source r' specs).1 = (walk source r specs).1 ∧
      Alike (List.Forall₂ (FieldError.Counterpart r r')) (walk source r specs).2 (walk source r' specs).2 := by
  induction specs with
  | nil => exact ⟨rfl, .ok .nil⟩
  | cons spec rest ih =>
    obtain ⟨hwarnings, hresult⟩ := ih
    have hcheck := check_matching hr source spec
    generalize hx : check source r spec = x at hcheck
    generalize hx' : check source r' spec = x' at hcheck
    cases hcheck with
    | fault fault =>
      rw [walk_cons_of_error hx, walk_cons_of_error hx']
      exact ⟨rfl, .fault fault⟩
    | ok hfound =>
      rw [walk_cons_of_ok hx, walk_cons_of_ok hx']
      refine ⟨by rw [hwarnings], ?_⟩
      generalize (walk source r rest).2 = y at hresult
      generalize (walk source r' rest).2 = y' at hresult
      cases hresult with
      | fault fault => exact .fault fault
      | ok herrors =>
        cases hfound with
        | none => exact .ok herrors
        | some he => exact .ok (.cons he herrors)

end Walk

end Session

end FieldRules
