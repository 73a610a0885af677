import FieldRules.Report
import FieldRules.Submission

/-!
# Validating one record

A record is validated by a session whose errors become a report. With a submission, the session runs under a
guard without a submit action, and the report tells whether the submission may proceed.
-/

namespace FieldRules

/-- The errors that were handed on, in order. -/
def reportedErrors (events : List Event) : List FieldError :=
  events.flatMap fun
    | .reported errors => errors
    | .asked _ => []

namespace Session

/-- Validates the record of a session, whose name the report gives. -/
def validate (s : Session) (name : String) (submit : Bool) : Activity Report :=
  let activity : Activity Bool := if submit then ((SubmitGuard.mk s none).submit ()).1 else s.run
  let errors := reportedErrors activity.events
  { activity with
    result := activity.result.map fun verdict =>
      { record := name, valid := errors.isEmpty, checked := s.specs.length
        submitted := if submit then some verdict else none, errors } }

end Session

end FieldRules
