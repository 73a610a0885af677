import FieldRules.Session

/-!
# Guarded submissions

A guard lets a submission proceed only when validation finds no error and the submit action that was there before,
if any, agrees. The action is asked after validation and only when that found no error.
-/

namespace FieldRules

/-- A session with a submit action, whose answers may depend on a state of its own. -/
structure SubmitGuard (σ : Type) where
  session : Session
  previous : Option (σ → Bool × σ)

namespace SubmitGuard

variable {σ : Type}

def hasPrevious (g : SubmitGuard σ) : Bool := g.previous.isSome

/-- Decides whether a submission may proceed. -/
def submit (g : SubmitGuard σ) (state : σ) : Activity Bool × σ :=
  let activity := g.session.run
  match activity.result, g.previous with
  | .ok true, some action =>
    let (answer, state) := action state
    ({ activity with events := activity.events ++ [.asked answer], result := .ok answer }, state)
  | _, _ => (activity, state)

end SubmitGuard

end FieldRules
