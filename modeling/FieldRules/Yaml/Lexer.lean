import FieldRules.Yaml.Scalar
import FieldRules.Yaml.Token

/-!
# From text to YAML tokens

A lexer walks through a text and keeps track of the open blocks by their indentation, of the brackets, and of the
places where a key may have begun. A key is known as such only at the colon behind it; its token is then put in
where the key began. `tokens?` gives all tokens of a text, or nothing when the text cannot be read.
-/

namespace FieldRules.Yaml

/-- A place where a key may have begun. -/
structure KeyPlace where
  /-- How many tokens stand before it. -/
  before : Nat
  index : Nat
  line : Nat
  column : Nat
  /-- Whether the block breaks off unless a key begins here. -/
  required : Bool

structure Lexer where
  cursor : Cursor
  tokens : Array Token := #[]
  /-- The place of a possible key inside the innermost brackets, or outside of all. -/
  keyPlace : Option KeyPlace := none
  /-- The same for the brackets around, the innermost first. -/
  outerPlaces : List (Option KeyPlace) := []
  /-- The indentation of the innermost block, and of the blocks around it. -/
  indent : Int := -1
  outerIndents : List Int := []
  /-- Whether a key may begin here. -/
  keyAllowed : Bool := true

namespace Lexer

def inFlow (l : Lexer) : Bool := !l.outerPlaces.isEmpty

def push (l : Lexer) (t : Token) : Lexer := { l with tokens := l.tokens.push t }

def insertAt (l : Lexer) (i : Nat) (t : Token) : Lexer := { l with tokens := l.tokens.insertIdxIfInBounds i t }

/-- Goes on behind one character. -/
def skip (l : Lexer) : Lexer := { l with cursor := l.cursor.skip }

/-- Whether a text begins like one that is marked in UTF-8. -/
def atMark (c : Cursor) : Bool := c.index == 0 && c.rest.head? == some '\ufeff'

/-- Passes over blanks, comments and line ends up to the next token. A tab is a blank only where no key may
begin. -/
def skipToTokenWith : Nat → Lexer → Lexer
  | 0, l => l
  | fuel + 1, l =>
    let c := if atMark l.cursor then l.cursor.skip else l.cursor
    let c := (c.takeWhile fun d => d == ' ' || (d == '\t' && (l.inFlow || !l.keyAllowed))).2
    let c := if c.rest.head? = some '#' then c.takeLine.2 else c
    if c.atBreak then
      skipToTokenWith fuel { l with cursor := c.skipBreak, keyAllowed := l.keyAllowed || !l.inFlow }
    else { l with cursor := c }

def skipToToken (l : Lexer) : Lexer := skipToTokenWith (l.cursor.rest.length + 1) l

/-- Whether a key place is too far back: a key stands in one line and has at most 1024 characters. -/
def isStale (c : Cursor) (p : KeyPlace) : Bool := p.line < c.line || p.index + 1024 < c.index

/-- Forgets a stale key place; where a key is required, the text cannot be read. -/
def freshen? (c : Cursor) : Option KeyPlace → Option (Option KeyPlace)
  | none => some none
  | some p => if !isStale c p then some (some p) else if p.required then none else some none

def dropStale? (l : Lexer) : Option Lexer := do
  let keyPlace ← freshen? l.cursor l.keyPlace
  let outerPlaces ← l.outerPlaces.mapM (freshen? l.cursor)
  return { l with keyPlace, outerPlaces }

/-- Gives up the key place, unless a key is required there. -/
def dropKeyPlace? (l : Lexer) : Option Lexer :=
  if l.keyPlace.any (·.required) then none else some { l with keyPlace := none }

/-- Notes that a key may begin here. -/
def noteKeyPlace? (l : Lexer) : Option Lexer :=
  if !l.keyAllowed then some l
  else do
    let l ← l.dropKeyPlace?
    let c := l.cursor
    let required := !l.inFlow && l.indent == (c.column : Int)
    return { l with keyPlace := some ⟨l.tokens.size, c.index, c.line, c.column, required⟩ }

/-- Opens a block when this place is indented further than the innermost one. The token is put in at an index, or
at the end. -/
def openBlock (l : Lexer) (column : Nat) (at? : Option Nat) (t : Token) : Lexer :=
  if l.inFlow || (column : Int) ≤ l.indent then l
  else
    let l := { l with outerIndents := l.indent :: l.outerIndents, indent := column }
    match at? with
    | some i => l.insertAt i t
    | none => l.push t

/-- Closes the blocks that are indented further than a column. -/
def closeBlocksWith (column : Int) (tokens : Array Token) (indent : Int) : List Int → Array Token × Int × List Int
  | [] => (tokens, indent, [])
  | outer :: rest =>
    if column < indent then closeBlocksWith column (tokens.push .blockEnd) outer rest
    else (tokens, indent, outer :: rest)

def closeBlocks (l : Lexer) (column : Int) : Lexer :=
  if l.inFlow then l
  else
    let (tokens, indent, outerIndents) := closeBlocksWith column l.tokens l.indent l.outerIndents
    { l with tokens, indent, outerIndents }

/-! ## The tokens by their first characters -/

/-- Closes all blocks and goes on behind a document marker. -/
def documentEdge? (l : Lexer) (t : Token) : Option Lexer := do
  let l ← (l.closeBlocks (-1)).dropKeyPlace?
  return { l with keyAllowed := false, cursor := l.cursor.skipMany 3 }.push t

def openBracket? (l : Lexer) (t : Token) : Option Lexer := do
  let l ← l.noteKeyPlace?
  return ({ l with keyPlace := none, outerPlaces := l.keyPlace :: l.outerPlaces, keyAllowed := true }.push t).skip

def closeBracket? (l : Lexer) (t : Token) : Option Lexer := do
  let l ← l.dropKeyPlace?
  let l := match l.outerPlaces with
    | [] => l
    | p :: outerPlaces => { l with keyPlace := p, outerPlaces }
  return ({ l with keyAllowed := false }.push t).skip

def comma? (l : Lexer) : Option Lexer := do
  let l ← l.dropKeyPlace?
  return ({ l with keyAllowed := true }.push .comma).skip

/-- A dash begins an item; one between brackets is left for the reader of the tokens to refuse. -/
def item? (l : Lexer) : Option Lexer := do
  if !l.inFlow && !l.keyAllowed then none
  else
    let l ← (l.openBlock l.cursor.column none .blockListStart).dropKeyPlace?
    return ({ l with keyAllowed := true }.push .item).skip

/-- A question mark begins a key of any form. -/
def key? (l : Lexer) : Option Lexer := do
  if !l.inFlow && !l.keyAllowed then none
  else
    let l ← (l.openBlock l.cursor.column none .blockMapStart).dropKeyPlace?
    return ({ l with keyAllowed := !l.inFlow }.push .key).skip

/-- A colon ends a key that began at the noted place; without one it follows a key of any form. -/
def value? (l : Lexer) : Option Lexer :=
  match l.keyPlace with
  | some p =>
    let l := (l.insertAt p.before .key).openBlock p.column (some p.before) .blockMapStart
    some ({ l with keyPlace := none, keyAllowed := false }.push .value).skip
  | none =>
    if !l.inFlow && !l.keyAllowed then none
    else
      let l := l.openBlock l.cursor.column none .blockMapStart
      some ({ l with keyAllowed := !l.inFlow }.push .value).skip

/-- The name of an anchor or of a reference to one. -/
def anchorName? (c : Cursor) : Option (String × Cursor) :=
  let (name, c) := c.skip.takeWhile isWordChar
  let ends := blankAhead c.rest || c.rest.head?.any fun d => "?:,]\x7d%@`".toList.contains d
  if name.isEmpty || !ends then none else some (String.ofList name, c)

def anchor? (l : Lexer) (make : String → Token) : Option Lexer := do
  let l ← l.noteKeyPlace?
  let (name, cursor) ← anchorName? l.cursor
  return { l with keyAllowed := false, cursor }.push (make name)

/-! ## Tags and directives -/

def isTagChar (inAngles : Bool) (c : Char) : Bool :=
  isWordChar c || ";/?:@&=+$.!~*'()".toList.contains c || (inAngles && ",[]".toList.contains c)

/-- The bytes that percent signs and hexadecimal digits stand for, as far as they go on. -/
def percentBytes : Nat → List Char → List UInt8 × List Char
  | 0, cs => ([], cs)
  | fuel + 1, cs =>
    match cs with
    | '%' :: a :: b :: rest =>
      match digitsIn? 16 [a, b] with
      | some ds =>
        let (bytes, rest) := percentBytes fuel rest
        ((ofDigitValues 16 ds).toUInt8 :: bytes, rest)
      | none => ([], cs)
    | cs => ([], cs)

/-- Reads the characters of a tag; percent signs stand for the bytes of characters. -/
def tagChars (inAngles : Bool) : Nat → List Char → Cursor → Option (List Char × Cursor)
  | 0, text, c => some (text, c)
  | fuel + 1, text, c =>
    match c.rest with
    | [] => some (text, c)
    | d :: _ =>
      if d == '%' then do
        let (bytes, rest) := percentBytes c.rest.length c.rest
        let decoded ← String.fromUTF8? ⟨bytes.toArray⟩
        if bytes.isEmpty || rest.head? = some '%' then none
        else tagChars inAngles fuel (text ++ decoded.toList) (c.skipMany (3 * bytes.length))
      else if isTagChar inAngles d then tagChars inAngles fuel (text ++ [d]) c.skip
      else some (text, c)

/-- Reads the rest of a tag, given what of it was read; there must be something. -/
def tagRest? (inAngles : Bool) (start : List Char) (c : Cursor) : Option (List Char × Cursor) := do
  let (text, c) ← tagChars inAngles c.rest.length start c
  if text.isEmpty then none else some (text, c)

/-- Reads a tag handle: an exclamation mark, and a word and another mark if they follow. -/
def handle? (c : Cursor) : Option (List Char × Cursor) :=
  if c.rest.head? ≠ some '!' then none
  else
    let (word, c) := c.skip.takeWhile isWordChar
    if c.rest.head? = some '!' then some ('!' :: word ++ ['!'], c.skip) else some ('!' :: word, c)

/-- Reads a tag: in angles, or a handle and a suffix. A mark alone is the tag `!`. -/
def tagParts? (c : Cursor) : Option (String × String × Cursor) := do
  if (c.rest.drop 1).head? = some '<' then
    let (suffix, c) ← tagRest? true [] (c.skipMany 2)
    if c.rest.head? = some '>' then some ("", String.ofList suffix, c.skip) else none
  else
    let (handle, c) ← handle? c
    if 1 < handle.length && handle.getLast? == some '!' then
      let (suffix, c) ← tagRest? false [] c
      return (String.ofList handle, String.ofList suffix, c)
    else
      let (suffix, c) ← tagChars false c.rest.length (handle.drop 1) c
      if suffix.isEmpty then return ("", "!", c) else return ("!", String.ofList suffix, c)

def tag? (l : Lexer) : Option Lexer := do
  let l ← l.noteKeyPlace?
  let (handle, suffix, cursor) ← tagParts? l.cursor
  if blankAhead cursor.rest || (l.inFlow && cursor.rest.head? == some ',') then
    return { l with keyAllowed := false, cursor }.push (.tag handle suffix)
  else none

/-- A version number of at most nine digits. -/
def versionPart? (c : Cursor) : Option (Nat × Cursor) :=
  let (digits, c) := c.takeWhile Char.isDigit
  if digits.isEmpty || 9 < digits.length then none else some (natOfDigits digits, c)

def directiveBody? (name : String) (c : Cursor) : Option (Token × Cursor) := do
  match name with
  | "YAML" =>
    let (major, c) ← versionPart? c.skipBlanks
    if c.rest.head? ≠ some '.' then none
    else
      let (minor, c) ← versionPart? c.skip
      return (.version major minor, c)
  | "TAG" =>
    let (handle, c) ← handle? c.skipBlanks
    if (handle ≠ ['!'] && handle.getLast? ≠ some '!') || !c.atBlank then none
    else
      let (expansion, c) ← tagRest? true [] c.skipBlanks
      if blankAhead c.rest then some (.tagHandle (String.ofList handle) (String.ofList expansion), c) else none
  | _ => none

def directive? (l : Lexer) : Option Lexer := do
  let l ← (l.closeBlocks (-1)).dropKeyPlace?
  let (name, c) := l.cursor.skip.takeWhile isWordChar
  if name.isEmpty || !blankAhead c.rest then none
  else
    let (t, c) ← directiveBody? (String.ofList name) c
    let cursor ← c.finishLine?
    return { l with keyAllowed := false, cursor }.push t

/-! ## Scalars -/

def blockScalar? (l : Lexer) (literal : Bool) : Option Lexer := do
  let l ← l.dropKeyPlace?
  let (text, cursor) ← block? literal l.indent l.cursor.skip
  return { l with keyAllowed := true, cursor }.push (.scalar false text)

def quotedScalar? (l : Lexer) (quote : Char) : Option Lexer := do
  let l ← l.noteKeyPlace?
  let (text, cursor) ← quoted? quote l.cursor.skip
  return { l with keyAllowed := false, cursor }.push (.scalar false text)

def plainScalar? (l : Lexer) : Option Lexer := do
  let l ← l.noteKeyPlace?
  let (text, cursor, broken) ← plain? l.inFlow (l.indent + 1) l.cursor
  return { l with keyAllowed := broken, cursor }.push (.scalar true text)

/-- Whether a plain scalar may begin here. -/
def plainAhead (inFlow : Bool) : List Char → Bool
  | [] => false
  | c :: rest =>
    if "?:".toList.contains c then !inFlow && !blankAhead rest
    else if c == '-' then !rest.head?.any isBlank
    else !blankAhead [c] && !",[]\x7b\x7d#&*!|>'\"%@`".toList.contains c

/-- Reads one token; the end of the text has been ruled out. -/
def token? (l : Lexer) : Option Lexer :=
  let c := l.cursor
  match c.rest with
  | [] => some l
  | d :: rest =>
    if c.column == 0 && d == '%' then l.directive?
    else if c.atMarker '-' then l.documentEdge? .documentStart
    else if c.atMarker '.' then l.documentEdge? .documentEnd
    else if d == '[' then l.openBracket? .listStart
    else if d == '\x7b' then l.openBracket? .mapStart
    else if d == ']' then l.closeBracket? .listEnd
    else if d == '\x7d' then l.closeBracket? .mapEnd
    else if d == ',' then l.comma?
    else if d == '-' && blankAhead rest then l.item?
    else if d == '?' && (l.inFlow || blankAhead rest) then l.key?
    else if d == ':' && (l.inFlow || blankAhead rest) then l.value?
    else if d == '*' then l.anchor? .reference
    else if d == '&' then l.anchor? .anchor
    else if d == '!' then l.tag?
    else if d == '|' && !l.inFlow then l.blockScalar? true
    else if d == '>' && !l.inFlow then l.blockScalar? false
    else if d == '\'' || d == '"' then l.quotedScalar? d
    else if plainAhead l.inFlow (d :: rest) then l.plainScalar?
    else none

/-- Reads tokens to the end of the text. Every token takes at least one character. -/
def runWith : Nat → Lexer → Option Lexer
  | 0, _ => none
  | fuel + 1, l => do
    let l ← l.skipToToken.dropStale?
    if l.cursor.rest.isEmpty then (l.closeBlocks (-1)).dropKeyPlace?
    else runWith fuel (← (l.closeBlocks l.cursor.column).token?)

end Lexer

/-- The tokens of a text. -/
def tokens? (text : String) : Option (List Token) :=
  let cs := text.toList
  if cs.all isAllowed then (Lexer.runWith (cs.length + 1) { cursor := ⟨cs, 0, 0, 0⟩ }).map (·.tokens.toList) else none

end FieldRules.Yaml
