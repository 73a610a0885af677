import FieldRules.Data.Value
import FieldRules.Json.Decode
import FieldRules.Log.Settings
import FieldRules.NameMap
import FieldRules.Registry
import FieldRules.Toml.Printer
import FieldRules.Yaml.Decode

/-!
# Configurations

What a configuration file may set: the output, the logging, and messages that replace those of the rules. Every
part may be left out.
-/

namespace FieldRules

open Data (Value)
open Json (Shape Scope Document Read)
open Yaml (Tree Slot readStructure?)

structure OutputConfig where
  format : String := "human"
  color : Bool := true
  deriving DecidableEq

structure Config where
  output : OutputConfig := {}
  logging : LogConfig := {}
  messages : NameMap String := .empty
  deriving DecidableEq

namespace OutputConfig

def shape : Shape OutputConfig where
  title := "an output section"
  start := {}
  slots :=
    [⟨["format"], false, fun _ d c => return { c with format := ← d.readText }⟩,
     ⟨["color"], false, fun _ d c => return { c with color := ← d.readBool }⟩]

def yamlSlots : List (Slot OutputConfig) :=
  [⟨["format"], false, fun t c => return { c with format := ← t.text? }⟩,
   ⟨["color"], false, fun t c => return { c with color := ← t.bool? }⟩]

def toValue (c : OutputConfig) : Value := .map [("format", .string c.format), ("color", .bool c.color)]

end OutputConfig

namespace LogConfig

def shape : Shape LogConfig where
  title := "a logging section"
  start := {}
  slots :=
    [⟨["level"], false, fun _ d c => return { c with level := ← d.readText? }⟩,
     ⟨["format"], false, fun _ d c => return { c with format := ← d.readText? }⟩,
     ⟨["file"], false, fun _ d c => return { c with file := ← d.readText? }⟩]

def yamlSlots : List (Slot LogConfig) :=
  [⟨["level"], false, fun t c => return { c with level := ← t.optionalText? }⟩,
   ⟨["format"], false, fun t c => return { c with format := ← t.optionalText? }⟩,
   ⟨["file"], false, fun t c => return { c with file := ← t.optionalText? }⟩]

/-- The parts that are set, by name. -/
def entries (c : LogConfig) : List (String × String) :=
  (c.level.toList.map ("level", ·)) ++ (c.format.toList.map ("format", ·)) ++ (c.file.toList.map ("file", ·))

def toValue (c : LogConfig) : Value := .map (c.entries.map fun (name, s) => (name, .string s))

end LogConfig

namespace Config

/-- Reads texts by their names, the last of each name standing. -/
def readMessages (closed : Bool) (m : NameMap String) : List (Document × Document) → Read (NameMap String)
  | [] => if closed then .ok m else .error .malformed
  | (.string (some name), d) :: rest => do readMessages closed (m.insert name (← d.readText)) rest
  | _ :: _ => .error .malformed

def readMessageMap (scope : Scope) : Document → Read (NameMap String)
  | .map members closed => do
    let _ ← scope.enter
    readMessages closed .empty members
  | d => d.unexpected "a map"

def shape : Shape Config where
  title := "a configuration"
  start := {}
  slots :=
    [⟨["output"], false, fun scope d c => return { c with output := ← OutputConfig.shape.read scope d }⟩,
     ⟨["logging"], false, fun scope d c => return { c with logging := ← LogConfig.shape.read scope d }⟩,
     ⟨["messages"], false, fun scope d c => return { c with messages := ← readMessageMap scope d }⟩]

def readJson : Scope → Document → Read Config := shape.read

/-- Texts by their names, the last of each name standing. -/
def messagesOfYaml? (t : Tree) : Option (NameMap String) := do
  (← t.entries?).foldlM (fun m (key, t) => return m.insert (← key.text?) (← t.text?)) .empty

def yamlSlots : List (Slot Config) :=
  [⟨["output"], false, fun t c => return { c with output := ← readStructure? OutputConfig.yamlSlots {} t }⟩,
   ⟨["logging"], false, fun t c => return { c with logging := ← readStructure? LogConfig.yamlSlots {} t }⟩,
   ⟨["messages"], false, fun t c => return { c with messages := ← messagesOfYaml? t }⟩]

def ofYaml? (t : Tree) : Option Config := readStructure? yamlSlots {} t

def toValue (c : Config) : Value :=
  .map [("output", c.output.toValue), ("logging", c.logging.toValue),
    ("messages", .map (c.messages.entries.map fun (name, s) => (name, .string s)))]

def toToml (c : Config) : String :=
  Toml.render
    [("output", [("format", .string c.output.format), ("color", .bool c.output.color)]),
     ("logging", c.logging.entries.map fun (name, s) => (name, .string s)),
     ("messages", c.messages.entries.map fun (name, s) => (name, .string s))]

/-- Puts messages into a registry one by one. The first rule that is not there ends it, and what was put in before
stays; its name is returned too. -/
def putMessages (r : Registry) : List (String × String) → Registry × Option String
  | [] => (r, none)
  | (name, template) :: rest =>
    match r.setMessage name template with
    | .ok r => putMessages r rest
    | .error _ => (r, some name)

/-- Puts the messages of the configuration into a registry, in the order of the names. -/
def applyMessages (c : Config) (r : Registry) : Registry × Option String := putMessages r c.messages.entries

end Config

end FieldRules
