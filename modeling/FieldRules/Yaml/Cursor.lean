import FieldRules.Yaml.Character

/-!
# Reading positions

A place in a text: what is still to be read, how many characters were read, and the line and column.
-/

namespace FieldRules.Yaml

structure Cursor where
  rest : List Char
  index : Nat := 0
  line : Nat := 0
  column : Nat := 0

namespace Cursor

/-- Passes over one character of a line. -/
def skip (c : Cursor) : Cursor := ⟨c.rest.drop 1, c.index + 1, c.line, c.column + 1⟩

/-- Passes over characters of a line. -/
def skipMany (c : Cursor) (n : Nat) : Cursor := ⟨c.rest.drop n, c.index + n, c.line, c.column + n⟩

/-- Passes over the end of a line, and gives what it stands for in a text: a line feed, or itself when it is one
of the two Unicode separators. A carriage return and a line feed are one end. -/
def takeBreak (c : Cursor) : List Char × Cursor :=
  match c.rest with
  | '\r' :: '\n' :: rest => (['\n'], ⟨rest, c.index + 2, c.line + 1, 0⟩)
  | b :: rest =>
    if isBreak b then
      (if b == '\u2028' || b == '\u2029' then [b] else ['\n'], ⟨rest, c.index + 1, c.line + 1, 0⟩)
    else ([], c)
  | [] => ([], c)

def skipBreak (c : Cursor) : Cursor := c.takeBreak.2

def skipBlanks (c : Cursor) : Cursor := c.skipMany (c.rest.takeWhile isBlank).length

/-- Reads the characters of a class from one line. -/
def takeWhile (p : Char → Bool) (c : Cursor) : List Char × Cursor :=
  let cs := c.rest.takeWhile p
  (cs, c.skipMany cs.length)

/-- Reads to the end of the line. -/
def takeLine (c : Cursor) : List Char × Cursor := c.takeWhile fun d => !breakAhead [d]

def atBlank (c : Cursor) : Bool := c.rest.head?.any isBlank

def atBreak (c : Cursor) : Bool := c.rest.head?.any isBreak

/-- Whether a line starts here with three equal signs and a blank behind them: `---` or `...`. -/
def atMarker (c : Cursor) (sign : Char) : Bool :=
  c.column == 0 && c.rest.take 3 == [sign, sign, sign] && blankAhead (c.rest.drop 3)

/-- Whether a document starts or ends here. -/
def atDocumentEdge (c : Cursor) : Bool := c.atMarker '-' || c.atMarker '.'

/-- Passes over blanks and a comment up to the end of the line; nothing else may stand there. -/
def finishLine? (c : Cursor) : Option Cursor :=
  let c := c.skipBlanks
  let c := if c.rest.head? = some '#' then c.takeLine.2 else c
  if breakAhead c.rest then some c.skipBreak else none

end Cursor

end FieldRules.Yaml
