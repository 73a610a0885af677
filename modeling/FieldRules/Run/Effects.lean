import FieldRules.Config.Files
import FieldRules.Output.Console
import FieldRules.Session

/-!
# What commands do

A command writes output, notes things in the log, changes files, and ends well or in a failure. What it did before
a failure stays done.
-/

namespace FieldRules

/-- What is noted in the log: a field of a record with its redacted value, or a warning. -/
inductive LogNote where
  | field (name : String) (kind : FieldKind) (value : String)
  | warning (w : Warning)
  deriving DecidableEq

structure Effects where
  files : FileTree
  output : String := ""
  notes : List LogNote := []

abbrev Run (α : Type) := ExceptT Failure (StateM Effects) α

namespace Run

def print (text : String) : Run Unit := modify fun e => { e with output := e.output ++ text }

def note (notes : List LogNote) : Run Unit := modify fun e => { e with notes := e.notes ++ notes }

def files : Run FileTree := return (← get).files

def setFiles (files : FileTree) : Run Unit := modify fun e => { e with files }

/-- Goes on with a result or ends in its failure. -/
def lift {α : Type} : Except Failure α → Run α
  | .ok a => pure a
  | .error failure => throw failure

/-- The built-in rules with the messages of a configuration. -/
def configuredRegistry (config : Config) : Except Failure Registry :=
  match config.applyMessages .standard with
  | (r, none) => .ok r
  | (_, some name) => .error (.config ("messages: no rule named \"" ++ name ++ "\" to override"))

end Run

end FieldRules
