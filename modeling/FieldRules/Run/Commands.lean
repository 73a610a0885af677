import FieldRules.CommandLine.Command
import FieldRules.CommandLine.Completion
import FieldRules.Log.Redaction
import FieldRules.Record.Yaml
import FieldRules.Run.Effects
import FieldRules.Validation

/-!
# The commands

What each command of the program does, given its arguments, the configuration and the console.
-/

namespace FieldRules

def Record.documentType : DocumentType Record := ⟨readJson, ofYaml?⟩

def FieldSpec.listType : DocumentType (List FieldSpec) := ⟨readJsonList, listOfYaml?⟩

namespace Run

/-- A field as it is noted in the log. -/
def fieldNote (f : Field) : LogNote := .field f.name f.kind (Redaction.fieldValue f.name f.valueOrEmpty)

/-- Validates the record in one file against the specifications in another. -/
def validate (console : Console) (config : Config) (record rules : String) (submit : Bool) : Run Unit := do
  print (console.info ("Validating record: " ++ record))
  let r ← lift (Record.documentType.load (← files) record "map of field names to values")
  let specs ← lift (FieldSpec.listType.load (← files) rules "list of \x7bfield, rules\x7d entries")
  if specs.isEmpty then
    throw (.invalidArguments (rules ++ " defines no field specs, nothing would be validated"))
  note (r.fields.map fieldNote)
  let registry ← lift (configuredRegistry config)
  let activity := Session.validate ⟨r.find?, registry, specs⟩ record submit
  note (activity.warnings.map .warning)
  let report ← lift (activity.result.mapError .core)
  print (console.report report)
  if !report.valid then throw (.validationFailed report.errors.length)

/-- Shows how rule expressions are understood, and with `check` whether the rules can be run. -/
def parse (console : Console) (config : Config) (expressions : List String) (check : Bool) : Run Unit := do
  let registry ← lift (if check then some <$> configuredRegistry config else .ok none)
  let explanations := (expressions.flatMap RuleCall.tokens).map (Explanation.ofToken registry)
  print (console.explanations explanations)
  let rejected := explanations.countP fun e => !e.isAccepted
  if 0 < rejected then throw (.rejected rejected)

/-- Lists the rules, or one of them. -/
def rules (console : Console) (config : Config) (name : Option String) : Run Unit := do
  let registry ← lift (configuredRegistry config)
  let definitions ← lift ((registry.select name).mapError .core)
  print (console.rules definitions)

/-- Writes a configuration that sets nothing. A file that is there is kept unless `force` is given. -/
def configInit (console : Console) (environment : Environment) (path : Option String) (user force : Bool) :
    Run Unit := do
  let path ← lift (if user then
      match Config.userDirectory? environment with
      | some directory => .ok (Config.userPath directory)
      | none => .error (.config "Unable to determine user config directory")
    else .ok (path.getD Config.localPath))
  if (← files).contains path && !force then
    print (console.warning ("Config already exists at " ++ path ++ " (use --force to overwrite)"))
  else
    setFiles (← lift (Config.save {} (← files) path))
    print (console.success ("✓ Created config at " ++ path))
    print (console.info
      "Add a `messages` section to override rule messages, e.g. required: \"Please fill in %field.\"")

/-- The text of a configuration, in a format. -/
def configText (config : Config) : ConfigFormat → String
  | .toml => config.toToml
  | .json => Json.renderPretty config.toValue
  | .yaml => Yaml.render config.toValue

def configShow (config : Config) (format : ConfigFormat) : Run Unit :=
  print (Console.line (String.ofList (Text.trimEnd Text.isBlank (configText config format).toList)))

/-- Marks paths by whether they are there, the first that is there being the active one. -/
def markPaths (files : FileTree) (found : Bool) : List String → List String
  | [] => []
  | path :: rest =>
    let isThere := files.contains path
    let mark := if !isThere then "✗" else if found then "✓" else "✓ (active)"
    (mark ++ " " ++ path) :: markPaths files (found || isThere) rest

/-- Lists the configuration files that are looked for. -/
def configPath (console : Console) (environment : Environment) : Run Unit := do
  match environment "FORMCHECK_CONFIG" with
  | some path => print (Console.line ("FORMCHECK_CONFIG: " ++ path))
  | none => pure ()
  let paths := Config.defaultPaths environment
  let tree ← files
  print (String.join ((markPaths tree false paths).map Console.line))
  if !paths.any tree.contains then print (console.info "No config file found, using defaults")

/-- Carries out a command. -/
def command (console : Console) (config : Config) (environment : Environment) : Command → Run Unit
  | .validate record rules submit => validate console config record rules submit
  | .parse expressions check => parse console config expressions check
  | .rules name => rules console config name
  | .configInit path user force => configInit console environment path user force
  | .configShow format => configShow config format
  | .configPath => configPath console environment
  | .completions shell => print (Completion.script shell)

end Run

end FieldRules
