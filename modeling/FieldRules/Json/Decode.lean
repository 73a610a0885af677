import FieldRules.Json.Document
import FieldRules.Text.Quoted

/-!
# Reading structures from JSON

Readers turn a `Document` into a typed value. They go through it in the order of the text, so the first thing
wrong is the one reported: either the text is not JSON (`malformed`), or it is and says something else than was
asked for (`Mismatch`). A structure is described by a `Shape` and may be written as a map or as a list of its
parts.
-/

namespace FieldRules.Json

open Data (Node)

/-- What a JSON document says instead of what was asked for. -/
inductive Mismatch where
  | missingSlot (name : String)
  | duplicateSlot (name : String)
  | wrongType (found expected : String)
  | wrongLength (length : Nat) (expected : String)
  | notSingleKey
  | noVariant (choice : String)
  | badField (name : String)
  deriving DecidableEq

def Mismatch.message : Mismatch → String
  | missingSlot name => "missing field `" ++ name ++ "`"
  | duplicateSlot name => "duplicate field `" ++ name ++ "`"
  | wrongType found expected => "invalid type: " ++ found ++ ", expected " ++ expected
  | wrongLength length expected => "invalid length " ++ Nat.repr length ++ ", expected " ++ expected
  | notSingleKey => "invalid value: map, expected map with a single key"
  | noVariant choice => "data did not match any variant of untagged enum " ++ choice
  | badField name => "invalid value for field \"" ++ name ++ "\""

inductive ReadFault where
  | malformed
  | mismatch (m : Mismatch)
  deriving DecidableEq

def ReadFault.message : ReadFault → String
  | malformed => "the text is not well-formed JSON"
  | mismatch m => m.message

/-- Where a document comes from: a text, which may go on after the part that is read, or data that is known to
be whole. -/
inductive Origin where
  | text
  | data
  deriving DecidableEq

/-- What a reader knows: the origin, and one more than how many lists and maps may still be entered. -/
structure Scope where
  origin : Origin
  budget : Nat

abbrev Read (α : Type) := Except ReadFault α

def mismatch {α : Type} (m : Mismatch) : Read α := .error (.mismatch m)

namespace Scope

/-- The scope inside a list or a map. -/
def enter (scope : Scope) : Read Scope :=
  if 1 < scope.budget then .ok ⟨scope.origin, scope.budget - 1⟩ else .error .malformed

end Scope

namespace Document

/-- What a value is called in a diagnostic. -/
def found : Document → Read String
  | .null => .ok "null"
  | .bool b => .ok ("boolean `" ++ (if b then "true" else "false") ++ "`")
  | .number l =>
    match l.number? with
    | some (.real x) => .ok ("floating point `" ++ NumberStyle.json.render x ++ "`")
    | some n => .ok ("integer `" ++ n.text ++ "`")
    | none => .error .malformed
  | .string (some s) => .ok ("string " ++ Text.quoted s)
  | .string none => .error .malformed
  | .list .. => .ok "sequence"
  | .map .. => .ok "map"
  | .broken => .error .malformed

def unexpected {α : Type} (d : Document) (expected : String) : Read α := do
  mismatch (.wrongType (← d.found) expected)

def readString (d : Document) (expected : String) : Read String :=
  match d with
  | .string (some s) => .ok s
  | d => d.unexpected expected

def readText (d : Document) : Read String := d.readString "a string"

/-- A text, or nothing where there is `null`. -/
def readText? : Document → Read (Option String)
  | .null => .ok none
  | d => some <$> d.readText

def readBool : Document → Read Bool
  | .bool b => .ok b
  | d => d.unexpected "a boolean"

/-- A truth value, or nothing where there is `null`. -/
def readBool? : Document → Read (Option Bool)
  | .null => .ok none
  | d => some <$> d.readBool

/-- All data of a value, whatever it is. -/
def readNode (scope : Scope) (d : Document) : Read Node :=
  match d.node? scope.budget with
  | some node => .ok node
  | none => .error .malformed

def readItems {α : Type} (read : Document → Read α) (closed : Bool) : List Document → Read (List α)
  | [] => if closed then .ok [] else .error .malformed
  | d :: rest => do
    let item ← read d
    return item :: (← readItems read closed rest)

def readList {α : Type} (scope : Scope) (read : Scope → Document → Read α) : Document → Read (List α)
  | .list items closed => do readItems (read (← scope.enter)) closed items
  | d => d.unexpected "a sequence"

end Document

/-- One slot of a structure: its names, the first being its own, and how its value is taken in. -/
structure Slot (α : Type) where
  names : List String
  required : Bool
  read : Scope → Document → α → Read α

def Slot.name {α : Type} (slot : Slot α) : String := slot.names.headD ""

/-- A structure: what it is called, its value while nothing is read, and its slots in order. -/
structure Shape (α : Type) where
  title : String
  start : α
  slots : List (Slot α)

namespace Shape

variable {α : Type}

/-- Takes in the members of a map; keys that name no slot are passed over, a slot may be given once. -/
def readMembers (shape : Shape α) (scope : Scope) (closed : Bool) (taken : List String) (value : α) :
    List (Document × Document) → Read α
  | [] =>
    if !closed then .error .malformed
    else
      match shape.slots.find? fun p => p.required && !taken.contains p.name with
      | some p => mismatch (.missingSlot p.name)
      | none => .ok value
  | (.string (some key), d) :: rest =>
    match shape.slots.find? fun p => p.names.contains key with
    | some p =>
      if taken.contains p.name then mismatch (.duplicateSlot p.name)
      else do
        let value ← p.read scope d value
        readMembers shape scope closed (p.name :: taken) value rest
    | none =>
      if d.skippable then readMembers shape scope closed taken value rest else .error .malformed
  | _ :: _ => .error .malformed

/-- Takes in the items of a list, one for each slot; slots that are not required may be left out at the end. -/
def readItems (shape : Shape α) (scope : Scope) (closed : Bool) (length : Nat) (value : α) :
    List (Slot α) → List Document → Read α
  | [], [] => if closed then .ok value else .error .malformed
  | [], _ :: _ =>
    match scope.origin with
    | .text => .error .malformed
    | .data => mismatch (.wrongLength length "fewer elements in array")
  | p :: slots, [] =>
    if !closed then .error .malformed
    else if p.required then
      let index := shape.slots.length - (slots.length + 1)
      mismatch (.wrongLength index (shape.title ++ " with " ++ Nat.repr shape.slots.length ++ " elements"))
    else readItems shape scope closed length value slots []
  | p :: slots, d :: rest => do
    let value ← p.read scope d value
    readItems shape scope closed length value slots rest

def read (shape : Shape α) (scope : Scope) : Document → Read α
  | .list items closed => do
    shape.readItems (← scope.enter) closed items.length shape.start shape.slots items
  | .map members closed => do
    shape.readMembers (← scope.enter) closed [] shape.start members
  | d => d.unexpected shape.title

end Shape

/-- Reads a whole text: the value, and then nothing but space. -/
def readWhole {α : Type} (read : Scope → Document → Read α) (text : String) : Read α := do
  let (document, atEnd) := Document.read text
  let value ← read ⟨.text, 128⟩ document
  if atEnd then .ok value else .error .malformed

/-- Reads a whole text as data, whatever it says. -/
def readDocument (text : String) : Read Document :=
  readWhole (fun scope d => do
    let _ ← d.readNode scope
    return d) text

/-- Reads a value out of data: maps have their keys in order, each once. -/
def readData {α : Type} (read : Scope → Document → Read α) (d : Document) : Read α :=
  read ⟨.data, 129⟩ d.tabulated

end FieldRules.Json
