import FieldRules.Data.Value
import FieldRules.Json.Decode
import FieldRules.Record
import FieldRules.Record.Entry

/-!
# Records in JSON

Fields, field specifications and records read from JSON and written to it.
-/

namespace FieldRules

open Json
open Data (Value)

namespace FieldKind

def toValue (kind : FieldKind) : Value := .string kind.name

/-- A kind by its name, or by a map from its name to `null`. -/
def readJson (scope : Scope) : Document → Read FieldKind
  | .string (some name) => .ok (.ofName name)
  | .map members closed => do
    if scope.origin = .data ∧ members.length ≠ 1 then mismatch .notSingleKey
    let _ ← scope.enter
    match members with
    | [] => .error .malformed
    | (key, value) :: rest =>
      let name ← key.readString "variant identifier"
      match value with
      | .null => if closed && rest.isEmpty then .ok (.ofName name) else .error .malformed
      | value => value.unexpected "unit"
  | d =>
    match scope.origin with
    | .text => .error .malformed
    | .data => d.unexpected "string or map"

end FieldKind

namespace Field

def shape : Shape Field where
  title := "struct FieldDescriptor"
  start := { name := "" }
  slots :=
    [⟨["name"], true, fun _ d f => return { f with name := ← d.readText }⟩,
     ⟨["kind"], false, fun scope d f => return { f with kind := ← FieldKind.readJson scope d }⟩,
     ⟨["value"], false, fun _ d f => return { f with value := ← d.readText? }⟩,
     ⟨["checked"], false, fun _ d f => return { f with checked := ← d.readBool? }⟩]

def readJson : Scope → Document → Read Field := shape.read

/-- The members that describe a field besides its name; what is missing is left out. -/
def bodyMembers (f : Field) : List (String × Value) :=
  ("kind", f.kind.toValue) :: (f.value.toList.map fun v => ("value", .string v)) ++
    f.checked.toList.map fun b => ("checked", .bool b)

def toValue (f : Field) : Value := .map (("name", .string f.name) :: f.bodyMembers)

end Field

namespace FieldSpec

/-- A specification; the field may be called `name` and the rules `validations`. -/
def shape : Shape FieldSpec where
  title := "struct FieldValidationSpec"
  start := ⟨"", ""⟩
  slots :=
    [⟨["field", "name"], true, fun _ d s => return { s with field := ← d.readText }⟩,
     ⟨["rules", "validations"], true, fun _ d s => return { s with rules := ← d.readText }⟩]

def readJson : Scope → Document → Read FieldSpec := shape.read

def readJsonList (scope : Scope) : Document → Read (List FieldSpec) := Document.readList scope readJson

def toValue (s : FieldSpec) : Value := .map [("field", .string s.field), ("rules", .string s.rules)]

end FieldSpec

namespace Record

/-- Inserts the members of a map one by one; whatever is wrong with a value is reported of its field. -/
def readMembers (scope : Scope) (closed : Bool) (record : Record) : List (Document × Document) → Read Record
  | [] => if closed then .ok record else .error .malformed
  | (.string (some name), d) :: rest =>
    match (d.node? scope.budget).bind (Entry.field? name) with
    | some field => readMembers scope closed (record.insert field) rest
    | none => mismatch (.badField name)
  | _ :: _ => .error .malformed

def readJson (scope : Scope) : Document → Read Record
  | .map members closed => do readMembers (← scope.enter) closed empty members
  | d => d.unexpected "a map of field names to values or field descriptors"

def ofText (text : String) : Read Record := readWhole readJson text

/-- Reads a record out of data, where the keys come in their own order. -/
def ofData (d : Document) : Read Record := readData readJson d

def toValue (r : Record) : Value := .map (r.fields.map fun f => (f.name, .map f.bodyMembers))

end Record

end FieldRules
