import FieldRules.Config
import FieldRules.Json.Printer
import FieldRules.Storage.Load
import FieldRules.Yaml.Printer

/-!
# Configuration files

Where configurations are looked for, and how they are loaded and saved. Without a path, the first of the default
files that can be read counts, and where there is none the configuration that sets nothing.
-/

namespace FieldRules

/-- The variables of the environment by name. -/
abbrev Environment := String → Option String

namespace Config

/-- The directory for configurations of the user: the one that the environment names, or `.config` at home. The
home is the one that the environment names; what the accounts of the system say of it is left out. -/
def baseDirectory? (environment : Environment) : Option String :=
  match (environment "XDG_CONFIG_HOME").filter Path.isAbsolute with
  | some directory => some directory
  | none => ((environment "HOME").filter (!·.isEmpty)).map fun home => Path.join home ".config"

def userDirectory? (environment : Environment) : Option String :=
  (baseDirectory? environment).map fun directory => Path.join directory "formcheck"

def localPath : String := ".formcheck.yaml"

def userPath (directory : String) : String := Path.join directory "config.yaml"

/-- The files that are looked for when no path is given, in order. -/
def defaultPaths (environment : Environment) : List String :=
  let user := match userDirectory? environment with
    | some directory => [userPath directory, Path.join directory "config.json"]
    | none => []
  [localPath, ".formcheck.json"] ++ user

def documentType : DocumentType Config := ⟨readJson, ofYaml?⟩

def ofFile (files : FileTree) (path : String) : Except Failure Config := do
  let text ← DocumentType.fileText files path
  (documentType.read (Path.isYaml path) text).mapError fun
    | .json fault => .json fault
    | .yaml => .yaml DocumentFault.yaml.reason

/-- The configuration of the first file that can be read. -/
def ofFirst (files : FileTree) : List String → Config
  | [] => {}
  | path :: rest =>
    match ofFile files path with
    | .ok c => c
    | .error _ => ofFirst files rest

/-- Loads the configuration of a path, or of the default files. -/
def load (files : FileTree) (environment : Environment) : Option String → Except Failure Config
  | some path => ofFile files path
  | none => .ok (ofFirst files (defaultPaths environment))

/-- The text of a configuration in a file. -/
def fileText (c : Config) (isYaml : Bool) : String :=
  if isYaml then Yaml.render c.toValue else Json.renderPretty c.toValue

/-- Saves the configuration, as YAML or JSON by the path. -/
def save (c : Config) (files : FileTree) (path : String) : Except Failure FileTree :=
  (files.write path (c.fileText (Path.isYaml path))).mapError fun fault => .io fault.message

end Config

end FieldRules
