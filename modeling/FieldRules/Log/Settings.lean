import FieldRules.Text.Case

/-!
# Log settings

What is logged, how, and where to. The settings come from the verbosity, then from the configuration, then from
the environment.
-/

namespace FieldRules

inductive LogFormat where
  | compact
  | full
  | json
  deriving DecidableEq

/-- The format of a name, in any letter case. -/
def LogFormat.ofName? (name : String) : Option LogFormat :=
  match Text.lower name with
  | "compact" => some compact
  | "full" => some full
  | "json" => some json
  | _ => none

/-- The logging part of a configuration. -/
structure LogConfig where
  level : Option String := none
  format : Option String := none
  file : Option String := none
  deriving DecidableEq

structure LogSettings where
  level : String := "warn"
  format : LogFormat := .compact
  console : Bool := true
  file : Option String := none
  threadIds : Bool := false
  sourceLocation : Bool := false
  deriving DecidableEq

namespace LogSettings

def ofVerbosity : Nat → LogSettings
  | 0 => {}
  | 1 => { level := "info" }
  | 2 => { level := "debug", sourceLocation := true }
  | _ => { level := "trace", format := .full, sourceLocation := true, threadIds := true }

/-- Applies a configuration; its level counts only when the verbosity was not raised. -/
def withConfig (s : LogSettings) (c : LogConfig) (verbosity : Nat) : LogSettings :=
  { s with
    level := if verbosity = 0 then c.level.getD s.level else s.level
    format := (c.format.bind LogFormat.ofName?).getD s.format
    file := c.file <|> s.file }

/-- Applies variables of the environment; a format that is not known changes nothing. -/
def withEnvironment (s : LogSettings) (lookup : String → Option String) : LogSettings :=
  { s with
    level := (lookup "RUST_LOG").getD s.level
    format := ((lookup "FORMCHECK_LOG_FORMAT").bind LogFormat.ofName?).getD s.format
    file := lookup "FORMCHECK_LOG_FILE" <|> s.file
    console := ((lookup "FORMCHECK_LOG_CONSOLE").map fun v => Text.lower v == "true" || v == "1").getD s.console }

/-- The complaint about a log format in the environment that is not known. -/
def environmentComplaint? (lookup : String → Option String) : Option String :=
  match lookup "FORMCHECK_LOG_FORMAT" with
  | some name =>
    if (LogFormat.ofName? name).isNone then some ("Invalid log format: " ++ name ++ ", using default") else none
  | none => none

end LogSettings

end FieldRules
