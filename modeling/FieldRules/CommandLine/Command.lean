import FieldRules.CommandLine.Grammar
import FieldRules.Output.Format

/-!
# Command lines

The commands of the program with their arguments, and how they are written on a command line.
-/

namespace FieldRules

/-- The formats that a configuration is shown in. -/
inductive ConfigFormat where
  | toml
  | json
  | yaml
  deriving DecidableEq

def ConfigFormat.ofName? : String → Option ConfigFormat
  | "toml" => some toml
  | "json" => some json
  | "yaml" => some yaml
  | _ => none

/-- The shells that completions are written for. -/
inductive Shell where
  | bash
  | zsh
  | fish
  | powerShell
  | elvish
  deriving DecidableEq

def Shell.ofName? : String → Option Shell
  | "bash" => some bash
  | "zsh" => some zsh
  | "fish" => some fish
  | "power-shell" => some powerShell
  | "elvish" => some elvish
  | _ => none

inductive Command where
  | validate (record rules : String) (submit : Bool)
  | parse (expressions : List String) (check : Bool)
  | rules (name : Option String)
  | configInit (path : Option String) (user force : Bool)
  | configShow (format : ConfigFormat)
  | configPath
  | completions (shell : Shell)
  deriving DecidableEq

structure CommandLine where
  verbose : Nat
  quiet : Bool
  config : Option String
  output : Option OutputFormat
  noColor : Bool
  command : Command
  deriving DecidableEq

namespace CommandLine

/-- How much is logged: nothing extra when only the important is wanted. -/
def verbosity (c : CommandLine) : Nat := if c.quiet then 0 else c.verbose

/-! ## The grammar -/

def isPath (s : String) : Bool := !s.isEmpty

/-- The options that every command takes. -/
def sharedOptions : List ArgSpec :=
  [{ id := "verbose", short := some 'v', long := some "verbose", kind := .count },
   { id := "quiet", short := some 'q', long := some "quiet", kind := .flag },
   { id := "config", short := some 'c', long := some "config", accepts := isPath
     variableName := some "FORMCHECK_CONFIG" },
   { id := "output", short := some 'o', long := some "output", accepts := fun s => (OutputFormat.ofName? s).isSome },
   { id := "no_color", long := some "no-color", kind := .flag },
   { id := "help", short := some 'h', long := some "help", kind := .help },
   { id := "version", short := some 'V', long := some "version", kind := .version }]

def sharedConflicts : List (String × String) := [("quiet", "verbose")]

def commandSpec (name : String) (options positionals : List ArgSpec) : CommandSpec :=
  { name, options := options ++ sharedOptions, positionals, conflicts := sharedConflicts }

def validateSpec : CommandSpec :=
  commandSpec "validate"
    [{ id := "rules", short := some 'r', long := some "rules", required := true, accepts := isPath },
     { id := "submit", long := some "submit", kind := .flag }]
    [{ id := "record", required := true, accepts := isPath }]

def parseSpec : CommandSpec :=
  commandSpec "parse" [{ id := "check", long := some "check", kind := .flag }]
    [{ id := "expressions", kind := .many, required := true }]

def rulesSpec : CommandSpec := commandSpec "rules" [] [{ id := "name" }]

def configInitSpec : CommandSpec :=
  let spec := commandSpec "init"
    [{ id := "user", long := some "user", kind := .flag }, { id := "force", long := some "force", kind := .flag }]
    [{ id := "path", accepts := isPath }]
  { spec with conflicts := ("user", "path") :: spec.conflicts }

def configShowSpec : CommandSpec :=
  commandSpec "show"
    [{ id := "format", short := some 'f', long := some "format"
       accepts := fun s => (ConfigFormat.ofName? s).isSome }]
    []

def configPathSpec : CommandSpec := commandSpec "path" [] []

def configSpec : CommandSpec :=
  { commandSpec "config" [] [] with commands := [configInitSpec, configShowSpec, configPathSpec] }

def completionsSpec : CommandSpec :=
  commandSpec "completions" []
    [{ id := "shell", required := true, accepts := fun s => (Shell.ofName? s).isSome }]

def programName : String := "formcheck"

def grammar : CommandSpec :=
  { commandSpec programName [] [] with
    commands := [validateSpec, parseSpec, rulesSpec, configSpec, completionsSpec] }

/-! ## From arguments to commands -/

def valueOf? (args : CommandArgs) (id : String) : Option String :=
  (GivenArg.find? id args.given).bind (·.values.head?)

def isGiven (args : CommandArgs) (id : String) : Bool := (GivenArg.find? id args.given).isSome

/-- The command that the arguments behind the name of the program stand for. -/
def command? : List CommandArgs → Option Command
  | [args] =>
    match args.name with
    | "validate" => do return .validate (← valueOf? args "record") (← valueOf? args "rules") (isGiven args "submit")
    | "parse" => do
      let expressions ← GivenArg.find? "expressions" args.given
      return .parse expressions.values (isGiven args "check")
    | "rules" => some (.rules (valueOf? args "name"))
    | "completions" => do return .completions (← Shell.ofName? (← valueOf? args "shell"))
    | _ => none
  | [_, args] =>
    match args.name with
    | "init" => some (.configInit (valueOf? args "path") (isGiven args "user") (isGiven args "force"))
    | "show" => do return .configShow (← ConfigFormat.ofName? ((valueOf? args "format").getD "toml"))
    | "path" => some .configPath
    | _ => none
  | _ => none

def ofArgs? (args : List CommandArgs) : Option CommandLine := do
  let shared (id : String) := CommandArgs.shared? id args
  let sharedValue (id : String) := (shared id).bind (·.values.head?)
  return {
    verbose := ((shared "verbose").map (·.occurrences)).getD 0
    quiet := (shared "quiet").isSome
    config := sharedValue "config"
    output := (sharedValue "output").bind OutputFormat.ofName?
    noColor := (shared "no_color").isSome
    command := ← command? (args.drop 1) }

/-- Reads the words of a command line. -/
def parse (environment : String → Option String) (words : List String) : Except Refusal CommandLine := do
  match ofArgs? (← grammar.parse environment words) with
  | some c => return c
  | none => throw .missingCommand

end CommandLine

end FieldRules
