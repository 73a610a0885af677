import FieldRules.Fault
import FieldRules.Output.Style

/-!
# Failures of commands

Why a command fails, the text that says so, and the exit code that tells it to the caller.
-/

namespace FieldRules

inductive Failure where
  | io (text : String)
  | core (fault : Fault)
  | fileNotFound (path : String)
  | invalidFormat (path expected : String)
  | config (text : String)
  | invalidArguments (text : String)
  | validationFailed (count : Nat)
  | rejected (count : Nat)
  | json (fault : Json.ReadFault)
  | yaml (text : String)
  | toml (text : String)
  | other (text : String)
  deriving DecidableEq

namespace Failure

def message : Failure → String
  | io text => "IO error: " ++ text
  | core fault => fault.message
  | fileNotFound path => "File not found: " ++ path
  | invalidFormat path expected => "Invalid file format for " ++ path ++ ": expected " ++ expected
  | config text => "Configuration error: " ++ text
  | invalidArguments text => "Invalid arguments: " ++ text
  | validationFailed count => "Validation failed for " ++ Nat.repr count ++ " field(s)"
  | rejected count => Nat.repr count ++ " rule expression(s) rejected"
  | json fault => "JSON error: " ++ fault.message
  | yaml text => "YAML error: " ++ text
  | toml text => "TOML error: " ++ text
  | other text => text

def exitCode : Failure → Nat
  | validationFailed _ => 1
  | core _ => 2
  | fileNotFound _ => 3
  | invalidFormat .. => 4
  | config _ => 5
  | invalidArguments _ => 6
  | rejected _ => 7
  | io _ => 10
  | json _ => 12
  | yaml _ => 13
  | toml _ => 14
  | other _ => 99

/-- Whether a hint at the help follows the message. -/
def showsHelp : Failure → Bool
  | invalidArguments _ => true
  | _ => false

/-- Whether the command has already said what is wrong in its output. -/
def isReported : Failure → Bool
  | validationFailed _ | rejected _ => true
  | _ => false

/-- The failure as it is shown to the user. -/
def display (f : Failure) (color : Bool) : String :=
  let label := match f with
    | core fault => if fault.isConfiguration then "Rule configuration error:" else "Error:"
    | _ => "Error:"
  Style.paint color .failure label ++ " " ++ f.message

end Failure

end FieldRules
