import FieldRules.Data.Node
import FieldRules.Json.Token
import FieldRules.NameMap

/-!
# JSON documents

A JSON text as a tree that also keeps how far it could be read: a list or a map may be unclosed, and `broken`
stands where no value could be read. A reader that walks the tree in the order of the text meets what is wrong
with it in the order of the text.
-/

namespace FieldRules.Json

open Data (Node)

inductive Document where
  | null
  | bool (b : Bool)
  | number (l : Literal)
  /-- A string; it has no text when an escape names half of a surrogate pair. -/
  | string (s : Option String)
  | list (items : List Document) (closed : Bool)
  | map (members : List (Document × Document)) (closed : Bool)
  | broken

namespace Document

mutual

/-- The value at the start of the tokens, and what follows it when the value could be read to its end. -/
def valueWith : Nat → List Token → Document × Option (List Token)
  | 0, _ => (.broken, none)
  | fuel + 1, ts =>
    match ts with
    | .null :: rest => (.null, some rest)
    | .bool b :: rest => (.bool b, some rest)
    | .number l :: rest => (.number l, some rest)
    | .string s :: rest => (.string s, some rest)
    | .openList :: .closeList :: rest => (.list [] true, some rest)
    | .openList :: rest =>
      let (items, after) := itemsWith fuel rest
      (.list items after.isSome, after)
    | .openMap :: .closeMap :: rest => (.map [] true, some rest)
    | .openMap :: rest =>
      let (members, after) := membersWith fuel rest
      (.map members after.isSome, after)
    | _ => (.broken, none)

/-- The items of a list up to its closing bracket; a comma must be followed by another item. -/
def itemsWith : Nat → List Token → List Document × Option (List Token)
  | 0, _ => ([.broken], none)
  | fuel + 1, ts =>
    let (item, after) := valueWith fuel ts
    match after with
    | some (.closeList :: rest) => ([item], some rest)
    | some (.comma :: .closeList :: _) => ([item], none)
    | some (.comma :: rest) =>
      let (items, after) := itemsWith fuel rest
      (item :: items, after)
    | _ => ([item], none)

/-- The members of a map up to its closing brace; a key that is no string is the last thing read. -/
def membersWith : Nat → List Token → List (Document × Document) × Option (List Token)
  | 0, _ => ([(.broken, .broken)], none)
  | fuel + 1, ts =>
    match ts with
    | .string key :: .colon :: rest =>
      let (value, after) := valueWith fuel rest
      let member := (.string key, value)
      match after with
      | some (.closeMap :: rest) => ([member], some rest)
      | some (.comma :: .closeMap :: _) => ([member], none)
      | some (.comma :: rest) =>
        let (members, after) := membersWith fuel rest
        (member :: members, after)
      | _ => ([member], none)
    | ts => ([((valueWith fuel ts).1, .broken)], none)

end

/-- Reads a text: its first value, and whether nothing but space follows it. -/
def read (text : String) : Document × Bool :=
  let tokens := Token.scan text.toList
  let (value, after) := valueWith (2 * tokens.length + 2) tokens
  (value, after matches some [])

mutual

/-- Whether a value is written well enough to be passed over, whatever its strings and numbers stand for. -/
def skippable : Document → Bool
  | .broken => false
  | .list items closed => closed && itemsSkippable items
  | .map members closed => closed && membersSkippable members
  | _ => true

def itemsSkippable : List Document → Bool
  | [] => true
  | d :: rest => d.skippable && itemsSkippable rest

def membersSkippable : List (Document × Document) → Bool
  | [] => true
  | (k, v) :: rest => k.skippable && v.skippable && membersSkippable rest

end

mutual

/-- The data of a value. There is none when any part of it is broken or out of range, or when lists and maps are
nested deeper than `budget - 1`. -/
def node? : Nat → Document → Option Node
  | _, .null => some .null
  | _, .bool b => some (.bool b)
  | _, .number l => l.number?.map .number
  | _, .string s => s.map .string
  | budget, .list items closed => do
    let nodes ← itemNodes? (budget - 1) items
    if closed && 1 < budget then some (.list nodes) else none
  | budget, .map members closed => do
    let entries ← memberNodes? (budget - 1) members
    if closed && 1 < budget then some (.map entries) else none
  | _, .broken => none

def itemNodes? : Nat → List Document → Option (List Node)
  | _, [] => some []
  | budget, d :: rest => do
    let node ← d.node? budget
    return node :: (← itemNodes? budget rest)

def memberNodes? : Nat → List (Document × Document) → Option (List (Node × Node))
  | _, [] => some []
  | budget, (k, v) :: rest => do
    let key ← k.node? budget
    let node ← v.node? budget
    return (key, node) :: (← memberNodes? budget rest)

end

mutual

/-- The document with the members of every map in the order of their names, the last of each name standing. -/
def tabulated : Document → Document
  | .list items closed => .list (tabulatedItems items) closed
  | .map members closed =>
    .map ((NameMap.ofList (tabulatedMembers members)).entries.map fun (k, v) => (.string (some k), v)) closed
  | d => d

def tabulatedItems : List Document → List Document
  | [] => []
  | d :: rest => d.tabulated :: tabulatedItems rest

def tabulatedMembers : List (Document × Document) → List (String × Document)
  | [] => []
  | (.string (some k), v) :: rest => (k, v.tabulated) :: tabulatedMembers rest
  | _ :: rest => tabulatedMembers rest

end

end Document

end FieldRules.Json
