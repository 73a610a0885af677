import FieldRules.Yaml.Lexer

/-!
# YAML documents

A document as a tree of scalars, lists and maps. A part that was given a name may be used again by that name.
`Tree.read?` gives the tree of a text that holds one document, or none, with the named parts put in wherever they
are used. A part that goes on without end, or too deep, or that would make the tree too large, is `broken`; only
what looks at it fails.
-/

namespace FieldRules.Yaml

inductive Tree where
  | scalar (tag : Option String) (plain : Bool) (text : String)
  | list (tag : Option String) (items : List Tree)
  | map (tag : Option String) (entries : List (Tree × Tree))
  /-- The part of the given number, once more. -/
  | reference (part : Nat)
  | broken

/-- A scalar of which nothing is written. -/
def Tree.nothing (tag : Option String) : Tree := .scalar tag true ""

/-- What is known while tokens are read: the tokens to come, the tag handles, the number of each name, and the numbered
parts in the order in which they begin. -/
structure Reading where
  tokens : List Token
  handles : List (String × String)
  names : List (String × Nat) := []
  parts : List (Nat × Tree) := []

abbrev Reader := StateT Reading Option

namespace Reader

def peek : Reader (Option Token) := return (← get).tokens.head?

def advance : Reader Unit := modify fun r => { r with tokens := r.tokens.drop 1 }

/-- Passes over a token if it is the next. -/
def skip? (t : Token) : Reader Bool := do
  if (← peek) = some t then
    advance
    return true
  else return false

/-- Passes over a token, which must be the next. -/
def expect (t : Token) : Reader Unit := do
  if !(← skip? t) then failure

/-- The anchor at this place. -/
def anchor? : Reader (Option String) := do
  match ← peek with
  | some (.anchor name) =>
    advance
    return some name
  | _ => return none

/-- The tag at this place, written out. -/
def tag? : Reader (Option String) := do
  match ← peek with
  | some (.tag handle suffix) =>
    advance
    if handle.isEmpty then return some suffix
    else
      match (← get).handles.lookup handle with
      | some expansion => return some (expansion ++ suffix)
      | none => failure
  | _ => return none

/-- An anchor and a tag in either order. -/
def properties : Reader (Option String × Option String) := do
  match ← anchor? with
  | some name => return (some name, ← tag?)
  | none =>
    match ← tag? with
    | some tag => return (← anchor?, some tag)
    | none => return (none, none)

/-- Begins a part with a name. Its number is how many names there are: a name that is given again counts once, so that
another part may have the number already, and is then lost. -/
def beginPart (name : String) : Reader Nat := do
  let r ← get
  let n := r.names.length
  set { r with names := (name, n) :: r.names.filter (·.1 ≠ name), parts := r.parts ++ [(n, Tree.broken)] }
  return r.parts.length

/-- Fills in the part of the given place among the parts. -/
def endPart (place : Nat) (t : Tree) : Reader Unit :=
  modify fun r => { r with parts := r.parts.modify place fun part => (part.1, t) }

def referenceTo (name : String) : Reader Tree := do
  match (← get).names.lookup name with
  | some n => return .reference n
  | none => failure

/-- Whether one of some tokens comes next. -/
def ahead (ts : List Token) : Reader Bool := return (← peek).any ts.contains

mutual

/-- A node. Between brackets there are no blocks; behind a key of a block, items may stand without indentation. -/
def node : Nat → Bool → Bool → Reader Tree
  | 0, _, _ => failure
  | fuel + 1, inBlock, bareItems => do
    match ← peek with
    | some (.reference name) =>
      advance
      referenceTo name
    | _ =>
      let (anchor, tag) ← properties
      match anchor with
      | none => content fuel inBlock bareItems false tag
      | some name =>
        let place ← beginPart name
        let t ← content fuel inBlock bareItems true tag
        endPart place t
        return t

/-- A node behind its anchor and tag; with one of these, nothing more is needed. -/
def content : Nat → Bool → Bool → Bool → Option String → Reader Tree
  | 0, _, _, _, _ => failure
  | fuel + 1, inBlock, bareItems, anchored, tag => do
    match ← peek, inBlock with
    | some (.scalar plain text), _ =>
      advance
      return .scalar (if tag = some "!" then none else tag) plain text
    | some .listStart, _ =>
      advance
      return .list tag (← listItems fuel true)
    | some .mapStart, _ =>
      advance
      return .map tag (← mapEntries fuel true)
    | some .item, _ =>
      if bareItems then return .list tag (← items fuel false)
      else if anchored || tag.isSome then return .nothing tag
      else failure
    | some .blockListStart, true =>
      advance
      return .list tag (← items fuel true)
    | some .blockMapStart, true =>
      advance
      return .map tag (← blockEntries fuel)
    | _, _ => if anchored || tag.isSome then return .nothing tag else failure

/-- The items of a block list; only an indented list has an end of its own. -/
def items : Nat → Bool → Reader (List Tree)
  | 0, _ => failure
  | fuel + 1, indented => do
    if ← skip? .item then
      let last := if indented then [.item, .blockEnd] else [.item, .key, .value, .blockEnd]
      let item ← if ← ahead last then pure (.nothing none) else node fuel true false
      return item :: (← items fuel indented)
    else
      if indented then expect .blockEnd
      return []

/-- The entries of a block map; key and value may be left out. -/
def blockEntries : Nat → Reader (List (Tree × Tree))
  | 0 => failure
  | fuel + 1 => do
    if ← skip? .key then
      let key ← blockPart fuel
      let value ← if ← skip? .value then blockPart fuel else pure (.nothing none)
      return (key, value) :: (← blockEntries fuel)
    else
      expect .blockEnd
      return []

/-- A key or a value of a block map. -/
def blockPart : Nat → Reader Tree
  | 0 => failure
  | fuel + 1 => do
    if ← ahead [.key, .value, .blockEnd] then return .nothing none else node fuel true true

/-- The items of a list in brackets, divided by commas; a key makes an item a map of one entry. -/
def listItems : Nat → Bool → Reader (List Tree)
  | 0, _ => failure
  | fuel + 1, first => do
    if ← skip? .listEnd then return []
    else
      if !first then expect .comma
      if ← skip? .key then
        let key ← if ← ahead [.value, .comma, .listEnd] then pure (.nothing none) else node fuel false false
        let value ← flowValue fuel .listEnd
        return .map none [(key, value)] :: (← listItems fuel false)
      else if ← skip? .listEnd then return []
      else
        let item ← node fuel false false
        return item :: (← listItems fuel false)

/-- The entries of a map in braces, divided by commas; an entry without a key sign is a key alone. -/
def mapEntries : Nat → Bool → Reader (List (Tree × Tree))
  | 0, _ => failure
  | fuel + 1, first => do
    if ← skip? .mapEnd then return []
    else
      if !first then expect .comma
      if ← skip? .key then
        let key ← if ← ahead [.value, .comma, .mapEnd] then pure (.nothing none) else node fuel false false
        let value ← flowValue fuel .mapEnd
        return (key, value) :: (← mapEntries fuel false)
      else if ← skip? .mapEnd then return []
      else
        let key ← node fuel false false
        return (key, .nothing none) :: (← mapEntries fuel false)

/-- The value behind a key between brackets, which end in a given token. -/
def flowValue : Nat → Token → Reader Tree
  | 0, _ => failure
  | fuel + 1, last => do
    if ← skip? .value then
      if ← ahead [.comma, last] then return .nothing none else node fuel false false
    else return .nothing none

end

/-- The directives before a document: the version may be named once, and each handle. -/
def directives : Nat → Bool → List (String × String) → Reader (List (String × String))
  | 0, _, _ => failure
  | fuel + 1, versioned, handles => do
    match ← peek with
    | some (.version major minor) =>
      advance
      if versioned || major ≠ 1 || (minor ≠ 1 && minor ≠ 2) then failure
      else directives fuel true handles
    | some (.tagHandle handle expansion) =>
      advance
      if (handles.lookup handle).isSome then failure
      else directives fuel versioned ((handle, expansion) :: handles)
    | _ => return handles

def isDocumentEdge : Token → Bool
  | .version .. | .tagHandle .. | .documentStart | .documentEnd => true
  | _ => false

/-- A document: with a start marker it may be empty. -/
def document (fuel : Nat) : Reader Tree := do
  match ← peek with
  | none => return .nothing none
  | some .documentEnd => failure
  | some t =>
    if isDocumentEdge t then
      let handles ← directives fuel false []
      modify fun r => { r with handles := handles ++ r.handles }
      expect .documentStart
      if (← peek).all isDocumentEdge then return .nothing none else node fuel true false
    else node fuel true false

/-- The only document of a text, followed by end markers at most. -/
def onlyDocument (fuel : Nat) : Reader Tree := do
  let t ← document fuel
  if (← get).tokens.all (· == .documentEnd) then return t else failure

end Reader

namespace Tree

mutual

/-- The number of steps it takes to walk through a tree. -/
def size : Tree → Nat
  | list _ items => 2 + sizeOfItems items
  | map _ entries => 2 + sizeOfEntries entries
  | _ => 1

def sizeOfItems : List Tree → Nat
  | [] => 0
  | t :: rest => t.size + sizeOfItems rest

def sizeOfEntries : List (Tree × Tree) → Nat
  | [] => 0
  | (k, v) :: rest => k.size + v.size + sizeOfEntries rest

end

/-- Puts the numbered parts in the place of their numbers. Lists and maps may be nested to the given depth; at
most `limit` parts are put in. -/
def expand (parts : List (Nat × Tree)) (limit : Nat) : Nat → Tree → StateM Nat Tree
  | depth, t => do
    let t ← match t with
      | reference n =>
        modify (· + 1)
        if limit < (← get) then pure broken else pure ((parts.lookup n).getD broken)
      | t => pure t
    match t, depth with
    | list tag items, depth + 1 => return list tag (← items.mapM (expand parts limit depth))
    | map tag entries, depth + 1 =>
      return map tag (← entries.mapM fun (k, v) =>
        return (← expand parts limit depth k, ← expand parts limit depth v))
    | list .., 0 | map .., 0 => return broken
    | t, _ => return t

/-- Reads a text that holds one document or none. -/
def read? (text : String) : Option Tree := do
  let tokens ← tokens? text
  let fuel := 3 * tokens.length + 3
  let (t, r) ← (Reader.onlyDocument fuel).run ⟨tokens, [("!", "!"), ("!!", "tag:yaml.org,2002:")], [], []⟩
  let (t, _) := (expand r.parts.reverse (100 * t.size) 128 t).run 0
  return t

end Tree

end FieldRules.Yaml
