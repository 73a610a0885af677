import FieldRules.Failure
import FieldRules.Json.Decode
import FieldRules.Storage.FileTree
import FieldRules.Yaml.Tree

/-!
# Loading documents

A document in a file is YAML or JSON by the extension of its path. A `DocumentType` says how a document of some
kind is read in either.
-/

namespace FieldRules

structure DocumentType (α : Type) where
  readJson : Json.Scope → Json.Document → Json.Read α
  readYaml : Yaml.Tree → Option α

/-- Why a text is no document of the type that was asked for. -/
inductive DocumentFault where
  | json (fault : Json.ReadFault)
  | yaml
  deriving DecidableEq

namespace DocumentFault

def syntaxName : DocumentFault → String
  | json _ => "JSON"
  | yaml => "YAML"

def reason : DocumentFault → String
  | json fault => fault.message
  | yaml => "the text is not well-formed YAML or says something else than was asked for"

end DocumentFault

namespace DocumentType

variable {α : Type}

/-- Reads a text as YAML or as JSON. -/
def read (type : DocumentType α) (isYaml : Bool) (text : String) : Except DocumentFault α :=
  if isYaml then
    match (Yaml.Tree.read? text).bind type.readYaml with
    | some a => .ok a
    | none => .error .yaml
  else (Json.readWhole type.readJson text).mapError .json

/-- The text of a file that must be there. -/
def fileText (files : FileTree) (path : String) : Except Failure String :=
  if files.contains path then (files.read path).mapError fun fault => .io fault.message
  else .error (.fileNotFound path)

/-- Loads a file; `expected` tells the user what should have been in it. -/
def load (type : DocumentType α) (files : FileTree) (path expected : String) : Except Failure α := do
  let text ← fileText files path
  (type.read (Path.isYaml path) text).mapError fun fault =>
    .invalidFormat path (fault.syntaxName ++ " " ++ expected ++ " (" ++ fault.reason ++ ")")

end DocumentType

end FieldRules
