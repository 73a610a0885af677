import FieldRules.Data.Node
import FieldRules.Yaml.Plain
import FieldRules.Yaml.Tree

/-!
# Reading structures from YAML

Readers turn a `Tree` into a typed value, or into nothing when it says something else than was asked for. Where a
text is asked for, any scalar gives its text; where anything may stand, a plain scalar is what `Plain.ofText` says.
-/

namespace FieldRules.Yaml

open Data (Node)

namespace Tree

/-- The text of a scalar, however it is written. -/
def text? : Tree → Option String
  | scalar _ _ text => some text
  | _ => none

/-- The truth value of a plain scalar. -/
def bool? : Tree → Option Bool
  | scalar _ true text => Yaml.bool? text
  | _ => none

/-- Whether nothing is written here, or something that says so. -/
def isNothing? : Tree → Option Bool
  | scalar _ false _ => some false
  | scalar none true text => some (text.isEmpty || isNull text)
  | scalar (some "tag:yaml.org,2002:null") true text => if isNull text then some true else none
  | broken | reference _ => none
  | _ => some false

/-- A text, or nothing. -/
def optionalText? (t : Tree) : Option (Option String) := do
  if ← t.isNothing? then return none else return some (← t.text?)

/-- The items of a list; where nothing is written there are none. -/
def items? : Tree → Option (List Tree)
  | list _ items => some items
  | scalar _ true "" => some []
  | _ => none

/-- The entries of a map; where nothing is written there are none. -/
def entries? : Tree → Option (List (Tree × Tree))
  | map _ entries => some entries
  | scalar _ true "" => some []
  | _ => none

/-- Whether a tag names a type of its own, which plain data does not have; the sign alone counts as one. -/
def isLocalTag (tag : String) : Bool := tag.toList.head? = some '!'

def nodeOfPlain? (text : String) : Option Node :=
  match Plain.ofText text with
  | .null => some .null
  | .bool b => some (.bool b)
  | .number (.real x) => if x.isFinite then some (.number (.real x)) else none
  | .number n => some (.number n)
  | .wide => none
  | .text => some (.string text)

/-- An integer or a float, for a scalar that is tagged as one. -/
def nodeOfNumber? (float : Bool) (text : String) : Option Node :=
  if float then ((Yaml.float? text.toList).filter Binary64.isFinite).map fun x => .number (.real x)
  else if isPadded text.toList then none
  else
    match Yaml.integer? text.toList with
    | some (.number n) => some (.number n)
    | _ => none

/-- What a scalar stands for where anything may stand. -/
def nodeOfScalar? (tag : Option String) (plain : Bool) (text : String) : Option Node :=
  match tag with
  | none => if plain then nodeOfPlain? text else some (.string text)
  | some tag =>
    if isLocalTag tag then none
    else if tag = "tag:yaml.org,2002:bool" then (Yaml.bool? text).map .bool
    else if tag = "tag:yaml.org,2002:int" then nodeOfNumber? false text
    else if tag = "tag:yaml.org,2002:float" then nodeOfNumber? true text
    else if tag = "tag:yaml.org,2002:null" then (if isNull text then some .null else none)
    else some (.string text)

mutual

/-- All data of a tree, whatever it is. -/
def node? : Tree → Option Node
  | scalar tag plain text => nodeOfScalar? tag plain text
  | list tag items => if tag.any isLocalTag then none else (itemNodes? items).map .list
  | map tag entries => if tag.any isLocalTag then none else (entryNodes? entries).map .map
  | _ => none

def itemNodes? : List Tree → Option (List Node)
  | [] => some []
  | t :: rest => do return (← t.node?) :: (← itemNodes? rest)

def entryNodes? : List (Tree × Tree) → Option (List (Node × Node))
  | [] => some []
  | (k, v) :: rest => do return (← k.node?, ← v.node?) :: (← entryNodes? rest)

end

end Tree

/-- One slot of a structure: its names, whether it may be left out, and how its value is taken in. -/
structure Slot (α : Type) where
  names : List String
  required : Bool
  read : Tree → α → Option α

/-- Takes in the entries of a map. Keys that name no slot are passed over, a slot may be given once, and those
that are required must be there. -/
def readSlots? {α : Type} (slots : List (Slot α)) (taken : List String) (value : α) :
    List (Tree × Tree) → Option α
  | [] => if slots.all fun p => !p.required || p.names.any taken.contains then some value else none
  | (key, t) :: rest => do
    let name ← key.text?
    match slots.find? fun p => p.names.contains name with
    | some p =>
      if p.names.any taken.contains then none else readSlots? slots (name :: taken) (← p.read t value) rest
    | none => readSlots? slots taken value rest

/-- Reads a structure from a map. -/
def readStructure? {α : Type} (slots : List (Slot α)) (start : α) (t : Tree) : Option α := do
  readSlots? slots [] start (← t.entries?)

end FieldRules.Yaml
