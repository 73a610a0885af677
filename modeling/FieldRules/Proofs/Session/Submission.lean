import FieldRules.Submission
import Mathlib.Logic.Function.Iterate

/-!
# Runs and submissions

A session may be used by its owner or under a guard, which the owner can give up to have the session back. The key
facts: `Session.run_eq` and `SubmitGuard.submit_eq` (what a run and a submission do, told by what the session evaluates
to), `Submission.Held.perform_eq` (one step) and `Submission.Held.performAll_eq` (any number of steps, in which the
successful validations of submissions use up the answers of the submit action one by one).
-/

namespace FieldRules

/-- What is handed on of an evaluation: its errors, unless there was a fault. -/
def Session.handedOn : Except Fault (List FieldError) → List Event
  | .ok errors => [.reported errors]
  | .error _ => []

/-- Whether an evaluation found nothing wrong. -/
def Session.isPassed : Except Fault (List FieldError) → Bool
  | .ok errors => errors.isEmpty
  | .error _ => false

namespace Session

theorem report_eq (s : Session) :
    s.report = ⟨s.evaluate.warnings, handedOn s.evaluate.result, s.evaluate.result⟩ := by
  have hquiet : s.evaluate = ⟨s.evaluate.warnings, [], s.evaluate.result⟩ := rfl
  unfold report
  cases h : s.evaluate.result with
  | ok errors => simp only [h, handedOn]
  | error fault =>
    rw [h] at hquiet
    simp only [h, handedOn]
    exact hquiet

theorem run_eq (s : Session) :
    s.run = ⟨s.evaluate.warnings, handedOn s.evaluate.result, s.evaluate.result.map List.isEmpty⟩ := by
  rw [run, report_eq]

end Session

namespace SubmitGuard

variable {σ : Type}

/-- What the action answers when it is asked for the next time but `k`. -/
def answer (g : SubmitGuard σ) (state : σ) (k : Nat) : Option Bool :=
  g.previous.map fun action => (action ((fun s => (action s).2)^[k] state)).1

/-- The state of the action when it was asked once. -/
def next (g : SubmitGuard σ) (state : σ) : σ := (g.previous.map fun action => (action state).2).getD state

private theorem answer_next (g : SubmitGuard σ) (state : σ) (k : Nat) :
    g.answer (g.next state) k = g.answer state (k + 1) := by
  unfold answer next
  cases g.previous <;> rfl

/-- A submission is a run, and then the action is asked once if there is one and the run found nothing wrong. -/
theorem submit_eq (g : SubmitGuard σ) (state : σ) :
    g.submit state =
      if Session.isPassed g.session.evaluate.result then
        (⟨g.session.evaluate.warnings, .reported [] :: (g.answer state 0).toList.map .asked,
          .ok ((g.answer state 0).getD true)⟩, g.next state)
      else (g.session.run, state) := by
  rw [submit, Session.run_eq]
  cases h : g.session.evaluate.result with
  | error fault => simp [Session.isPassed, Except.map]
  | ok errors =>
    cases errors with
    | nil => cases hp : g.previous <;> simp [Session.isPassed, Session.handedOn, Except.map, answer, next, hp]
    | cons e rest => simp [Session.isPassed, Except.map]

end SubmitGuard

/-- The answers that were asked for, in order. -/
def Event.answers (events : List Event) : List Bool :=
  events.filterMap fun
    | .asked answer => some answer
    | .reported _ => none

def Activity.map {α β : Type} (f : α → β) (a : Activity α) : Activity β := { a with result := a.result.map f }

/-! ### Steps -/

namespace Submission

/-- Who has a session: a guard, or else its owner. -/
inductive Holder where
  | guard
  | owner

/-- What is done with a session, by who has it before and after. -/
inductive Step : Holder → Holder → Type where
  | evaluate {h : Holder} : Step h h
  | run {h : Holder} : Step h h
  | report {h : Holder} : Step h h
  | submit : Step .guard .guard
  /-- The guard is given up, and its action with it. -/
  | release : Step .guard .owner

inductive Steps : Holder → Holder → Type where
  | nil {h : Holder} : Steps h h
  | cons {h i j : Holder} (first : Step h i) (rest : Steps i j) : Steps h j

inductive Reply where
  | errors (errors : List FieldError)
  | verdict (valid : Bool)
  | released

/-- A session, and with a guard the state of its action. -/
inductive Held (σ : Type) : Holder → Type where
  | guard (g : SubmitGuard σ) (state : σ) : Held σ .guard
  | owner (s : Session) : Held σ .owner

namespace Held

variable {σ : Type}

def session {h : Holder} : Held σ h → Session
  | guard g _ => g.session
  | owner s => s

def perform {h i : Holder} : Held σ h → Step h i → Activity Reply × Held σ i
  | held, .evaluate => (held.session.evaluate.map .errors, held)
  | held, .run => (held.session.run.map .verdict, held)
  | held, .report => (held.session.report.map .errors, held)
  | guard g state, .submit =>
    let (activity, state) := g.submit state
    (activity.map .verdict, guard g state)
  | guard g _, .release => (⟨[], [], .ok .released⟩, owner g.session)

/-- What comes of each of some steps. -/
def performAll {h i : Holder} : Held σ h → Steps h i → List (Activity Reply)
  | _, .nil => []
  | held, .cons first rest =>
    let (activity, held) := held.perform first
    activity :: held.performAll rest

/-- The answers to come. -/
def answer {h : Holder} : Held σ h → Nat → Option Bool
  | guard g state => g.answer state
  | owner _ => fun _ => none

end Held

/-! ### What is expected of steps -/

def Step.isSubmit {h i : Holder} : Step h i → Bool
  | submit => true
  | _ => false

/-- What comes of a step, told by what the session evaluates to and the next answer of the action. -/
def Step.outcome {h i : Holder} (a : Activity (List FieldError)) (answer : Option Bool) : Step h i → Activity Reply
  | evaluate => ⟨a.warnings, [], a.result.map .errors⟩
  | report => ⟨a.warnings, Session.handedOn a.result, a.result.map .errors⟩
  | run => ⟨a.warnings, Session.handedOn a.result, a.result.map fun errors => .verdict errors.isEmpty⟩
  | submit =>
    match a.result with
    | .ok [] => ⟨a.warnings, .reported [] :: answer.toList.map .asked, .ok (.verdict (answer.getD true))⟩
    | .ok errors => ⟨a.warnings, [.reported errors], .ok (.verdict false)⟩
    | .error fault => ⟨a.warnings, [], .error fault⟩
  | release => ⟨[], [], .ok .released⟩

namespace Steps

/-- What comes of steps when `k` answers of the action were used up before: a submission uses one up when the session
evaluates to no errors. -/
def outcomes {h i : Holder} (a : Activity (List FieldError)) (answers : Nat → Option Bool) (k : Nat) :
    Steps h i → List (Activity Reply)
  | nil => []
  | cons first rest =>
    first.outcome a (answers k) ::
      rest.outcomes a answers (if first.isSubmit && Session.isPassed a.result then k + 1 else k)

def countSubmits {h i : Holder} : Steps h i → Nat
  | nil => 0
  | cons first rest => (if first.isSubmit then 1 else 0) + rest.countSubmits

end Steps

namespace Held

variable {σ : Type} {h i : Holder} {answers : Nat → Option Bool} {k : Nat}

/-- Of the answers that a guard's action ever gives, the first `k` were used up. -/
def Used (answers : Nat → Option Bool) (k : Nat) : Held σ h → Prop
  | guard g state => ∀ j, g.answer state j = answers (k + j)
  | owner _ => True

private theorem used_zero (held : Held σ h) : held.Used held.answer 0 := by
  cases held with
  | guard g state => intro j; rw [Nat.zero_add]; rfl
  | owner s => trivial

/-- A step does what is expected of it. -/
theorem perform_eq {held : Held σ h} (hused : held.Used answers k) (step : Step h i) :
    (held.perform step).1 = step.outcome held.session.evaluate (answers k) := by
  cases step with
  | evaluate => rfl
  | run =>
    simp only [perform, Step.outcome, Session.run_eq, Activity.map]
    cases held.session.evaluate.result <;> rfl
  | report => simp only [perform, Step.outcome, Session.report_eq, Activity.map]
  | submit =>
    cases held with
    | guard g state =>
      have hnext : g.answer state 0 = answers k := hused 0
      simp only [perform, Step.outcome, SubmitGuard.submit_eq, session, hnext]
      cases hresult : g.session.evaluate.result with
      | error fault => simp [Session.isPassed, Session.run_eq, Session.handedOn, hresult, Activity.map, Except.map]
      | ok errors =>
        cases errors <;>
          simp [Session.isPassed, Session.run_eq, Session.handedOn, hresult, Activity.map, Except.map]
  | release =>
    cases held
    rfl

/-- A step keeps the session, and uses up an answer only when it is a submission that finds nothing wrong. -/
private theorem used_perform {held : Held σ h} (hused : held.Used answers k) (step : Step h i) :
    (held.perform step).2.session = held.session ∧
      (held.perform step).2.Used answers
        (if step.isSubmit && Session.isPassed held.session.evaluate.result then k + 1 else k) := by
  cases step with
  | evaluate => exact ⟨rfl, hused⟩
  | run => exact ⟨rfl, hused⟩
  | report => exact ⟨rfl, hused⟩
  | submit =>
    cases held with
    | guard g state =>
      simp only [perform, SubmitGuard.submit_eq, session, Step.isSubmit, Bool.true_and]
      refine ⟨trivial, ?_⟩
      by_cases hpassed : Session.isPassed g.session.evaluate.result
      · rw [if_pos hpassed, if_pos hpassed]
        intro j
        rw [SubmitGuard.answer_next, hused, Nat.add_right_comm, Nat.add_assoc]
      · rw [if_neg hpassed, if_neg hpassed]
        exact hused
  | release =>
    cases held
    exact ⟨rfl, trivial⟩

/-- Each of some steps does what is expected of it, and submissions use up the answers one by one. -/
theorem performAll_eq {held : Held σ h} (hused : held.Used answers k) (steps : Steps h i) :
    held.performAll steps = steps.outcomes held.session.evaluate answers k := by
  induction steps generalizing k with
  | nil => rfl
  | cons first rest ih =>
    obtain ⟨hsession, hrest⟩ := used_perform hused first
    have htail := ih hrest
    rw [hsession] at htail
    rw [performAll, Steps.outcomes, ← perform_eq hused first, ← htail]

end Held

/-! ### The answers that are asked for -/

section Answers

variable {h i : Holder} (a : Activity (List FieldError))

private theorem Step.answers_outcome (answer : Option Bool) (step : Step h i) :
    Event.answers (step.outcome a answer).events =
      if step.isSubmit && Session.isPassed a.result then answer.toList else [] := by
  have hquiet : Event.answers (Session.handedOn a.result) = [] := by cases a.result <;> rfl
  cases step with
  | evaluate => rfl
  | run => exact hquiet
  | report => exact hquiet
  | release => rfl
  | submit =>
    simp only [outcome, isSubmit, Bool.true_and]
    cases a.result with
    | error fault => rfl
    | ok errors =>
      cases errors with
      | cons e rest => rfl
      | nil => cases answer <;> rfl

/-- The action gives its answers in turn, one for each submission, if the session evaluates to no errors, and is never
asked otherwise. -/
private theorem Steps.answers_outcomes (given : Nat → Option Bool) (k : Nat) (steps : Steps h i) :
    Event.answers ((steps.outcomes a given k).flatMap Activity.events) =
      (List.range' k (if Session.isPassed a.result then steps.countSubmits else 0)).filterMap given := by
  induction steps generalizing k with
  | nil => simp [outcomes, countSubmits, Event.answers]
  | cons first rest ih =>
    rw [outcomes, List.flatMap_cons, Event.answers, List.filterMap_append, ← Event.answers, ← Event.answers,
      first.answers_outcome, ih, countSubmits]
    by_cases hpassed : Session.isPassed a.result
    · cases hsubmit : first.isSubmit with
      | false => simp [hpassed]
      | true =>
        simp only [hpassed, Bool.and_self, if_true]
        rw [Nat.add_comm 1, List.range'_succ, List.filterMap_cons]
        cases given k <;> rfl
    · simp [hpassed]

end Answers

/-- What comes of any steps with a session, by itself or under a guard with an action, is what is expected of each of
them: an evaluation hands nothing on, a run and a report hand on what the session evaluates to, and a submission does
what a run does and then asks the action once if the session evaluates to no errors. The answers that are asked for
are the first ones that the action gives, one for each submission, and none when there are errors or a fault. -/
theorem Held.steps_keep_protocol {σ : Type} {h i : Holder} (held : Held σ h) (steps : Steps h i) :
    held.performAll steps = steps.outcomes held.session.evaluate held.answer 0 ∧
      Event.answers ((held.performAll steps).flatMap Activity.events) =
        (List.range (if Session.isPassed held.session.evaluate.result then steps.countSubmits else 0)).filterMap
          held.answer := by
  have houtcomes := Held.performAll_eq held.used_zero steps
  refine ⟨houtcomes, ?_⟩
  rw [houtcomes, Steps.answers_outcomes, List.range_eq_range']

end Submission

end FieldRules
