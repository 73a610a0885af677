import FieldRules.Execute
import FieldRules.FieldError
import FieldRules.Message

/-!
# Validation sessions

A session validates the fields that a source gives against field specifications. `evaluate` walks the
specifications in order and the rules of each in order, up to the first rule that the field fails; `run` also
hands the list of errors to the receiver of results. A fault ends the walk, and then nothing is handed on.
-/

namespace FieldRules

/-- Where a session finds fields: the field of a name, if there is one. -/
abbrev FieldSource := String → Option Field

inductive Warning where
  | absentField (name : String)
  deriving DecidableEq

def Warning.message : Warning → String
  | absentField name => "The record doesn't have the field \"" ++ name ++ "\", skipping its validations"

/-- What others notice of a session: a list of errors handed on, or a submit action asked for its answer. -/
inductive Event where
  | reported (errors : List FieldError)
  | asked (answer : Bool)
  deriving DecidableEq

/-- What a step of a session did and what came of it. -/
structure Activity (α : Type) where
  warnings : List Warning
  events : List Event
  result : Except Fault α

structure Session where
  source : FieldSource
  registry : Registry
  specs : List FieldSpec

namespace Session

/-- Applies rules to a field up to the first that it fails. -/
def checkTokens (registry : Registry) (spec : FieldSpec) (field : Field) :
    List String → Except Fault (Option FieldError)
  | [] => .ok none
  | token :: rest => do
    let call ← (RuleCall.read token).mapError (Fault.inField spec.field)
    let outcome ← execute registry field call
    match outcome.template with
    | none => checkTokens registry spec field rest
    | some template =>
      return some ⟨spec.field, spec, token, outcome.params, Message.render template spec.field outcome.params⟩

def checkField (registry : Registry) (spec : FieldSpec) (field : Field) : Except Fault (Option FieldError) :=
  checkTokens registry spec field (RuleCall.tokens spec.rules)

/-- Walks specifications in order; one whose field is absent gives a warning and nothing else. -/
def walk (source : FieldSource) (registry : Registry) : List FieldSpec → List Warning × Except Fault (List FieldError)
  | [] => ([], .ok [])
  | spec :: rest =>
    match source spec.field with
    | none =>
      let (warnings, result) := walk source registry rest
      (.absentField spec.field :: warnings, result)
    | some field =>
      match checkField registry spec field with
      | .error fault => ([], .error fault)
      | .ok found =>
        let (warnings, result) := walk source registry rest
        (warnings, result.map (found.toList ++ ·))

def evaluate (s : Session) : Activity (List FieldError) :=
  let (warnings, result) := walk s.source s.registry s.specs
  ⟨warnings, [], result⟩

/-- Evaluates and hands the errors on, unless there was a fault. -/
def report (s : Session) : Activity (List FieldError) :=
  let activity := s.evaluate
  match activity.result with
  | .ok errors => { activity with events := [.reported errors] }
  | .error _ => activity

/-- Reports, and tells whether the record is valid. -/
def run (s : Session) : Activity Bool :=
  let activity := s.report
  { activity with result := activity.result.map List.isEmpty }

def lookup (s : Session) (name : String) : Except Fault RuleDefinition := s.registry.lookup name

end Session

/-- The parts of a session before it is put together; all of them are needed. -/
structure SessionParts where
  source : Option FieldSource := none
  registry : Option Registry := none
  specs : Option (List FieldSpec) := none
  /-- Whether somebody receives the results. -/
  hasReceiver : Bool := false

namespace SessionParts

def missing (what : String) : Fault := .configuration ("ValidationSession: you must provide " ++ what)

def build (p : SessionParts) : Except Fault Session :=
  match p.source, p.registry, p.specs, p.hasReceiver with
  | some source, some registry, some specs, true => .ok ⟨source, registry, specs⟩
  | none, _, _, _ => .error (missing "a field source")
  | _, none, _, _ => .error (missing "a rule registry")
  | _, _, none, _ => .error (missing "the field validation specs")
  | _, _, _, false => .error (missing "a result callback")

end SessionParts

end FieldRules
