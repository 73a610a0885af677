import FieldRules.Log.Filter
import FieldRules.Run.Commands

/-!
# The program

A run of the program from the words of the command line to the exit code. Its configuration is loaded first, then
logging is set up, and then the command is carried out; a failure to set up logging is told and otherwise passed
over.
-/

namespace FieldRules

/-- Where a run takes place. -/
structure Surroundings where
  environment : Environment
  files : FileTree
  /-- Whether the output goes to a terminal. -/
  onTerminal : Bool := false

/-- What is left of a run. -/
structure RunResult where
  exitCode : Nat
  output : String
  errors : String
  files : FileTree
  notes : List LogNote := []

namespace Program

def versionNumber : String := "0.1.0"

def versionText (path : List String) : String := "-".intercalate path ++ " " ++ versionNumber ++ "\n"

def usage : String :=
  "Usage: formcheck [OPTIONS] <COMMAND>\n\nCommands:\n" ++
    String.join (CommandLine.grammar.commands.map fun c => "  " ++ c.name ++ "\n")

/-- The variables of the environment that a run looks at. -/
def variableNames : List String :=
  ["HOME", "XDG_CONFIG_HOME", "FORMCHECK_CONFIG", "RUST_LOG", "FORMCHECK_LOG_FORMAT", "FORMCHECK_LOG_FILE",
    "FORMCHECK_LOG_CONSOLE"]

/-- The paths that a command line names. -/
def commandPaths (environment : Environment) (line : CommandLine) : List String :=
  line.config.toList ++
    match line.command with
    | .validate record rules _ => [record, rules]
    | .configInit path user _ =>
      path.toList ++ if user then (Config.userDirectory? environment).toList.map Config.userPath else []
    | _ => []

/-- The paths that a run on the words of a command line may look at. -/
def paths (environment : Environment) (words : List String) : List String :=
  let named := match CommandLine.parse environment words with
    | .ok line => commandPaths environment line
    | .error _ => []
  named ++ Config.defaultPaths environment

/-- What is told of a command line that is not carried out. -/
def refuse (s : Surroundings) (r : Refusal) : RunResult :=
  match r with
  | .helpWanted => ⟨0, usage, "", s.files, []⟩
  | .versionWanted path => ⟨0, versionText path, "", s.files, []⟩
  | r => ⟨r.exitCode, "", usage, s.files, []⟩

/-- The format of the output: the one that was asked for, or the one of the configuration. -/
def outputFormat (asked : Option OutputFormat) (config : Config) : Except Failure OutputFormat :=
  match asked, OutputFormat.ofConfig? config.output.format with
  | some format, _ => .ok format
  | none, some format => .ok format
  | none, none =>
    .error (.config ("output.format: unknown format \"" ++ config.output.format ++
      "\" (expected human, json, json-pretty or yaml)"))

/-- The settings of the log; where only the important is wanted, errors go to the log file alone. -/
def logSettings (line : CommandLine) (config : LogConfig) (environment : Environment) : LogSettings :=
  let s := ((LogSettings.ofVerbosity line.verbosity).withConfig config line.verbosity).withEnvironment environment
  if line.quiet then { s with level := "error", console := false } else s

/-- The configuration of a run, and its settings of the log as far as the configuration can be loaded. -/
def settings (s : Surroundings) (line : CommandLine) : Except Failure Config × LogSettings :=
  let config := Config.load s.files s.environment line.config
  let logging := match config with
    | .ok c => c.logging
    | .error _ => {}
  (config, logSettings line logging s.environment)

/-- The log file of a run on the words of a command line. -/
def logPath? (s : Surroundings) (words : List String) : Option String :=
  match CommandLine.parse s.environment words with
  | .ok line => (settings s line).2.file
  | .error _ => none

/-- Prepares the log: its level must be a filter, and its file is made. -/
def openLog (settings : LogSettings) (files : FileTree) : Except Failure FileTree :=
  if !LogFilter.isFilter settings.level then
    .error (.config ("Invalid log level '" ++ settings.level ++ "': not a log filter"))
  else
    match settings.file with
    | none => .ok files
    | some path =>
      if (Path.fileName? path).isNone then .error (.config ("Invalid log file path: " ++ path))
      else (files.touch path).mapError fun fault => .io fault.message

/-- What is told of a failure at the end of a run. -/
def failureText (f : Failure) (color : Bool) : String :=
  (if f.isReported then "" else f.display color ++ "\n") ++
    (if f.showsHelp then "\nFor more information, try '--help'\n" else "")

/-- Carries out the command of a command line, with the configuration as far as it could be loaded. -/
def execute (line : CommandLine) (environment : Environment) (color : Bool) (config : Except Failure Config) :
    Run Unit := do
  let config ← Run.lift config
  let format ← Run.lift (outputFormat line.output config)
  Run.command ⟨format, color, line.quiet, line.verbosity⟩ config environment line.command

/-- Runs the program on a command line that was read. -/
def runLine (s : Surroundings) (line : CommandLine) : RunResult :=
  let (config, logging) := settings s line
  let complaint := match LogSettings.environmentComplaint? s.environment with
    | some text => text ++ "\n"
    | none => ""
  let (files, logErrors) := match openLog logging s.files with
    | .ok files => (files, "")
    | .error failure => (s.files, "Failed to initialize logging: " ++ failure.message ++ "\n")
  let configColor := match config with
    | .ok c => c.output.color
    | .error _ => true
  let color := !line.noColor && s.onTerminal && configColor
  let (result, effects) := (execute line s.environment color config).run.run { files }
  let (exitCode, failure) := match result with
    | .ok () => (0, "")
    | .error f => (f.exitCode, failureText f color)
  ⟨exitCode, effects.output, complaint ++ logErrors ++ failure, effects.files, effects.notes⟩

/-- Runs the program on the words of a command line. -/
def run (s : Surroundings) (words : List String) : RunResult :=
  match CommandLine.parse s.environment words with
  | .error refusal => refuse s refusal
  | .ok line => runLine s line

end Program

end FieldRules
