import FieldRules.Proofs.Registry.Messages
import FieldRules.Proofs.Run.Results
import FieldRules.Proofs.Session.Matching
import Mathlib.Data.List.Forall2

/-!
# Messages change messages only

A session over a registry with messages over its templates is compared with the same session without them. The key
facts: `Session.evaluate_reworded` (the same warnings, and the same fault or errors that differ in their messages alone)
and `Config.messages_reword_only` (a configuration whose messages name rules that are there changes nothing else, down
to what a command comes to).
-/

namespace FieldRules

/-- Two errors that differ in their messages alone: one has the template of its rule, and the other the message given
for that rule, if there is one. -/
structure FieldError.Reworded (messages : NameMap String) (r : Registry) (e e' : FieldError) : Prop where
  field : e'.field = e.field
  spec : e'.spec = e.spec
  expression : e'.expression = e.expression
  params : e'.params = e.params
  messages : ∃ call d, RuleCall.parse e.expression = .ok call ∧ r.find? call.name = some d ∧
    e.message = Message.render d.template e.field e.params ∧
    e'.message = Message.render ((messages.find? call.name).getD d.template) e.field e.params

variable {messages : NameMap String} {r r' : Registry}

private theorem Registry.Overrides.matching (h : r.Overrides messages.entries r') : r.Matches r' := by
  intro name
  rw [h name]
  cases r.find? name with
  | none => exact .none
  | some d => exact .some ⟨rfl, fun _ _ _ => rfl⟩

private theorem FieldError.Counterpart.reworded (h : r.Overrides messages.entries r') {e e' : FieldError}
    (he : Counterpart r r' e e') : Reworded messages r e e' := by
  obtain ⟨call, d, d', hparse, hfind, hfind', hmessage, hmessage'⟩ := he.messages
  refine ⟨he.field, he.spec, he.expression, he.params, call, d, hparse, hfind, hmessage, ?_⟩
  rw [h call.name, hfind] at hfind'
  obtain rfl := Option.some.inj hfind'
  exact hmessage'

namespace Session

private theorem Alike.imp {α β : Type} {R S : α → β → Prop} (hRS : ∀ a b, R a b → S a b) {x : Except Fault α}
    {y : Except Fault β} (h : Alike R x y) : Alike S x y := by
  cases h with
  | fault fault => exact .fault fault
  | ok hab => exact .ok (hRS _ _ hab)

/-- Messages over the templates leave the warnings, a fault and the errors as they are, but for the messages. -/
theorem evaluate_reworded (h : r.Overrides messages.entries r') (source : FieldSource) (specs : List FieldSpec) :
    (Session.mk source r' specs).evaluate.warnings = (Session.mk source r specs).evaluate.warnings ∧
      Alike (List.Forall₂ (FieldError.Reworded messages r)) (Session.mk source r specs).evaluate.result
        (Session.mk source r' specs).evaluate.result := by
  obtain ⟨hwarnings, hresult⟩ := walk_matching h.matching source specs
  exact ⟨hwarnings, hresult.imp fun _ _ => List.Forall₂.imp fun _ _ he => he.reworded h⟩

/-- Errors that match are absent together. -/
private theorem Alike.map_isEmpty {α β : Type} {R : α → β → Prop} {x : Except Fault (List α)}
    {y : Except Fault (List β)} (h : Alike (List.Forall₂ R) x y) :
    y.map List.isEmpty = x.map List.isEmpty := by
  cases h with
  | fault fault => rfl
  | ok herrors => cases herrors <;> rfl

end Session

/-- Errors that match make the same of a validation. -/
private theorem Run.verdict_eq {R : FieldError → FieldError → Prop} {x y : Except Fault (List FieldError)}
    (h : Session.Alike (List.Forall₂ R) x y) :
    (y.mapError .core >>= verdict) = (x.mapError .core >>= verdict) := by
  cases h with
  | fault fault => rfl
  | ok herrors =>
    cases herrors with
    | nil => rfl
    | cons _ hrest => exact congrArg (fun n => Except.error (Failure.validationFailed (n + 1))) hrest.length_eq.symm

/-- Messages that name rules that are there change messages only. A session over a registry with them evaluates to the
same warnings, and to the same fault or to as many errors, which differ in their messages alone, and its run tells the
same of the record. The validation of a record with the built-in rules comes to the same success or failure. -/
theorem Config.messages_reword_only (c : Config) :
    (∀ r, (∀ name ∈ c.messages.names, r.contains name) →
      ∃ r', c.applyMessages r = (r', none) ∧
        ∀ source specs,
          (Session.mk source r' specs).evaluate.warnings = (Session.mk source r specs).evaluate.warnings ∧
          Session.Alike (List.Forall₂ (FieldError.Reworded c.messages r)) (Session.mk source r specs).evaluate.result
            (Session.mk source r' specs).evaluate.result ∧
          (Session.mk source r' specs).run.result = (Session.mk source r specs).run.result) ∧
    ((∀ name ∈ c.messages.names, Registry.standard.contains name) →
      ∀ console record rules submit e,
        (Run.validate console c record rules submit).result e =
          (Run.validate console { c with messages := .empty } record rules submit).result e) := by
  constructor
  · intro r h
    obtain ⟨r', happly, hover⟩ := overrides_applyMessages h
    refine ⟨r', happly, fun source specs => ?_⟩
    obtain ⟨hwarnings, hresult⟩ := Session.evaluate_reworded hover source specs
    refine ⟨hwarnings, hresult, ?_⟩
    rw [Session.run_eq, Session.run_eq]
    exact hresult.map_isEmpty
  · intro h console record rules submit e
    obtain ⟨r', happly, hover⟩ := overrides_applyMessages h
    have hworded : Run.configuredRegistry c = .ok r' := by rw [Run.configuredRegistry, happly]
    have hplain : Run.configuredRegistry { c with messages := .empty } = .ok .standard := rfl
    rw [Run.result_validate, Run.result_validate, hworded, hplain]
    -- up to the session both commands are the same
    congr 1
    funext f
    congr 1
    funext specs
    congr 1
    exact Run.verdict_eq (Session.evaluate_reworded hover f.find? specs).2

theorem Config.messages_reword_required :
    let c : Config := { messages := .ofList [("required", "Please fill in %field.")] }
    let source := (Record.ofList [.text "name" ""]).find?
    let specs : List FieldSpec := [⟨"name", "required|alpha"⟩]
    (∀ name ∈ c.messages.names, Registry.standard.contains name) ∧
      (∃ r', c.applyMessages .standard = (r', none) ∧
        Session.Alike (List.Forall₂ (FieldError.Reworded c.messages .standard))
          (Session.mk source .standard specs).evaluate.result (Session.mk source r' specs).evaluate.result ∧
        (Session.mk source r' specs).run.result = .ok false) ∧
      ∀ console record rules submit e,
        (Run.validate console c record rules submit).result e =
          (Run.validate console { c with messages := .empty } record rules submit).result e := by
  intro c source specs
  have hnames : ∀ name ∈ c.messages.names, Registry.standard.contains name := by decide
  obtain ⟨hsessions, hcommands⟩ := messages_reword_only c
  obtain ⟨r', happly, hall⟩ := hsessions .standard hnames
  obtain ⟨-, hresult, hrun⟩ := hall source specs
  have hplain : (Session.mk source .standard specs).run.result = .ok false := by rfl
  exact ⟨hnames, ⟨r', happly, hresult, hrun.trans hplain⟩, hcommands hnames⟩

end FieldRules
