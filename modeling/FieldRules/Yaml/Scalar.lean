import FieldRules.Number.Numeral
import FieldRules.Yaml.Cursor

/-!
# Scalars in YAML text

Reading plain scalars, scalars in quotes and block scalars. A line break inside a plain or quoted scalar folds to
a space, and further breaks are kept; a block scalar keeps or folds its breaks by its sign.
-/

namespace FieldRules.Yaml

/-- What stands between two words of a scalar: blanks in a line, or line breaks with the blanks dropped. -/
structure Gap where
  blanks : List Char := []
  firstBreak : List Char := []
  moreBreaks : List Char := []
  /-- Whether there is a break, possibly one that stands for nothing. -/
  broken : Bool := false

namespace Gap

/-- One line feed folds to a space, or to the breaks behind it. -/
def fold (first more : List Char) : List Char :=
  if first = ['\n'] then (if more.isEmpty then [' '] else more) else first ++ more

def text (g : Gap) : List Char := if g.broken then fold g.firstBreak g.moreBreaks else g.blanks

/-- Reads blanks and breaks. After a break, a tab left of the given column is refused. -/
def readWith (limit : Int) : Nat → Gap → Cursor → Option (Gap × Cursor)
  | 0, g, c => some (g, c)
  | fuel + 1, g, c =>
    match c.rest with
    | [] => some (g, c)
    | b :: _ =>
      if isBlank b then
        if g.broken && b == '\t' && decide ((c.column : Int) < limit) then none
        else if g.broken then readWith limit fuel g c.skip
        else readWith limit fuel { g with blanks := g.blanks ++ [b] } c.skip
      else if isBreak b then
        let (br, c) := c.takeBreak
        if g.broken then readWith limit fuel { g with moreBreaks := g.moreBreaks ++ br } c
        else readWith limit fuel { g with blanks := [], firstBreak := br, broken := true } c
      else some (g, c)

def read? (limit : Int) (g : Gap) (c : Cursor) : Option (Gap × Cursor) := readWith limit c.rest.length g c

end Gap

/-! ## Scalars in quotes -/

def escapeValue? : Char → Option Char
  | '0' => some '\x00'
  | 'a' => some '\x07'
  | 'b' => some '\x08'
  | 't' | '\t' => some '\t'
  | 'n' => some '\n'
  | 'v' => some '\x0b'
  | 'f' => some '\x0c'
  | 'r' => some '\r'
  | 'e' => some '\x1b'
  | ' ' => some ' '
  | '"' => some '"'
  | '/' => some '/'
  | '\\' => some '\\'
  | 'N' => some '\u0085'
  | '_' => some '\u00a0'
  | 'L' => some '\u2028'
  | 'P' => some '\u2029'
  | _ => none

/-- How many digits follow the letter of a numeric escape. -/
def escapeWidth? : Char → Option Nat
  | 'x' => some 2
  | 'u' => some 4
  | 'U' => some 8
  | _ => none

/-- A character by the digits of its code point. -/
def charOfHex? (width : Nat) (cs : List Char) : Option Char := do
  let digits := cs.take width
  if digits.length ≠ width then none
  else
    let n := ofDigitValues 16 (← digitsIn? 16 digits)
    if n.isValidChar then some (Char.ofNat n) else none

/-- An escape behind its backslash: the character and how many characters it takes. -/
def escape? : List Char → Option (Char × Nat)
  | [] => none
  | e :: rest =>
    match escapeWidth? e with
    | some width => (charOfHex? width rest).map (·, width + 1)
    | none => (escapeValue? e).map (·, 1)

/-- Reads a word inside quotes, up to a blank, a break or the closing quote. The last part says whether an
escaped break ended it. -/
def quotedWord (quote : Char) : Nat → List Char → Cursor → Option (List Char × Cursor × Bool)
  | 0, word, c => some (word, c, false)
  | fuel + 1, word, c =>
    match c.rest with
    | [] => some (word, c, false)
    | d :: rest =>
      if blankAhead [d] then some (word, c, false)
      else if d == quote then
        if quote == '\'' && rest.head? = some '\'' then quotedWord quote fuel (word ++ ['\'']) (c.skipMany 2)
        else some (word, c, false)
      else if quote == '"' && d == '\\' then
        if rest.head?.any isBreak then some (word, c.skip.skipBreak, true)
        else do
          let (e, width) ← escape? rest
          quotedWord quote fuel (word ++ [e]) (c.skipMany (width + 1))
      else quotedWord quote fuel (word ++ [d]) c.skip

/-- Reads words and the gaps between them up to the closing quote. -/
def quotedWith (quote : Char) : Nat → List Char → Cursor → Option (String × Cursor)
  | 0, _, _ => none
  | fuel + 1, text, c => do
    if c.atDocumentEdge || c.rest.isEmpty then none
    else
      let (word, c, escapedBreak) ← quotedWord quote c.rest.length [] c
      let text := text ++ word
      if !escapedBreak && c.rest.head? = some quote then return (String.ofList text, c.skip)
      else
        let (gap, c) ← Gap.read? 0 { broken := escapedBreak } c
        quotedWith quote fuel (text ++ gap.text) c

/-- Reads a scalar in quotes, from behind its opening quote. -/
def quoted? (quote : Char) (c : Cursor) : Option (String × Cursor) := quotedWith quote (c.rest.length + 1) [] c

/-! ## Plain scalars -/

/-- Signs that end a plain scalar between brackets. -/
def isFlowSign (c : Char) : Bool := c == ',' || c == '[' || c == ']' || c == '\x7b' || c == '\x7d'

/-- Reads a word of a plain scalar. Between brackets, a colon with a bracket, a comma or a question mark behind it
is refused. -/
def plainWord (inFlow : Bool) : Nat → List Char → Cursor → Option (List Char × Cursor)
  | 0, word, c => some (word, c)
  | fuel + 1, word, c =>
    match c.rest with
    | [] => some (word, c)
    | d :: rest =>
      if blankAhead [d] then some (word, c)
      else if inFlow && d == ':' && rest.head?.any (fun e => isFlowSign e || e == '?') then none
      else if (d == ':' && blankAhead rest) || (inFlow && isFlowSign d) then some (word, c)
      else plainWord inFlow fuel (word ++ [d]) c.skip

/-- Reads words and gaps as long as the lines are indented far enough. A gap counts only when a word follows; the
last part says whether the gap at the end was broken. -/
def plainWith (inFlow : Bool) (indent : Int) : Nat → List Char → Gap → Cursor → Option (String × Cursor × Bool)
  | 0, _, _, _ => none
  | fuel + 1, text, gap, c => do
    if c.atDocumentEdge || c.rest.head? = some '#' then return (String.ofList text, c, gap.broken)
    else
      let (word, c) ← plainWord inFlow c.rest.length [] c
      let (text, gap) := if word.isEmpty then (text, gap) else (text ++ gap.text ++ word, {})
      if !c.atBlank && !c.atBreak then return (String.ofList text, c, gap.broken)
      else
        let (gap, c) ← Gap.read? indent gap c
        if !inFlow && decide ((c.column : Int) < indent) then return (String.ofList text, c, gap.broken)
        else plainWith inFlow indent fuel text gap c

def plain? (inFlow : Bool) (indent : Int) (c : Cursor) : Option (String × Cursor × Bool) :=
  plainWith inFlow indent (c.rest.length + 1) [] {} c

/-! ## Block scalars -/

/-- What becomes of the breaks at the end of a block scalar. -/
inductive Chomping where
  | strip
  | clip
  | keep
  deriving DecidableEq

def chomping? : Char → Option Chomping
  | '-' => some .strip
  | '+' => some .keep
  | _ => none

/-- Reads the hints behind the sign of a block scalar: chomping and indentation in either order. The indentation
is a digit that is not zero. -/
def blockHints? (c : Cursor) : Option (Chomping × Option Nat × Cursor) :=
  let digit? (d : Char) : Option Nat := if d.isDigit then some (digitValue d) else none
  let nonzero (n : Nat) (rest : Chomping × Option Nat × Cursor) := if n = 0 then none else some rest
  match c.rest with
  | d :: e :: _ =>
    match chomping? d, digit? d, chomping? e, digit? e with
    | some ch, _, _, some n => nonzero n (ch, some n, c.skipMany 2)
    | some ch, _, _, none => some (ch, none, c.skip)
    | none, some n, some ch, _ => nonzero n (ch, some n, c.skipMany 2)
    | none, some n, none, _ => nonzero n (.clip, some n, c.skip)
    | none, none, _, _ => some (.clip, none, c)
  | [d] =>
    match chomping? d, digit? d with
    | some ch, _ => some (ch, none, c.skip)
    | none, some n => nonzero n (.clip, some n, c.skip)
    | none, none => some (.clip, none, c)
  | [] => some (.clip, none, c)

/-- Passes over indentation and empty lines. While the indentation is not known, spaces are passed over without
end and the widest indentation met is returned. A tab where indentation is expected is refused. -/
def blockBreaks (indent : Option Nat) :
    Nat → Nat → List Char → Cursor → Option (Nat × List Char × Cursor)
  | 0, widest, breaks, c => some (widest, breaks, c)
  | fuel + 1, widest, breaks, c =>
    let spaces := (c.rest.takeWhile isSpace).length
    let c := c.skipMany (match indent with
      | some n => min spaces (n - c.column)
      | none => spaces)
    let widest := max widest c.column
    let inMargin := match indent with
      | some n => decide (c.column < n)
      | none => true
    if inMargin && c.rest.head? = some '\t' then none
    else if c.atBreak then
      let (br, c) := c.takeBreak
      blockBreaks indent fuel widest (breaks ++ br) c
    else some (widest, breaks, c)

/-- What was read of a block scalar: its text, the break after the last line, the empty lines after that, and
whether the last line began with a blank. -/
structure BlockText where
  text : List Char := []
  lastBreak : List Char := []
  emptyLines : List Char := []
  blankStart : Bool := false

/-- Adds a line; between lines that do not begin with a blank, a folded scalar turns a single break into a
space. -/
def BlockText.addLine (literal : Bool) (b : BlockText) (line : List Char) : BlockText :=
  let blankStart := line.head?.any isBlank
  let joint :=
    if !literal && b.lastBreak = ['\n'] && !b.blankStart && !blankStart then
      if b.emptyLines.isEmpty then [' '] else []
    else b.lastBreak
  { text := b.text ++ joint ++ b.emptyLines ++ line, blankStart }

def BlockText.finish (b : BlockText) : Chomping → List Char
  | .strip => b.text
  | .clip => b.text ++ b.lastBreak
  | .keep => b.text ++ b.lastBreak ++ b.emptyLines

/-- Reads the lines of a block scalar that stand at its indentation. -/
def blockLines (literal : Bool) (indent : Nat) : Nat → BlockText → Cursor → Option (BlockText × Cursor)
  | 0, b, c => some (b, c)
  | fuel + 1, b, c => do
    if c.column ≠ indent || c.rest.isEmpty then return (b, c)
    else
      let (line, c) := c.takeLine
      let b := b.addLine literal line
      let (lastBreak, c) := c.takeBreak
      let (_, emptyLines, c) ← blockBreaks (some indent) (c.rest.length + 1) 0 [] c
      blockLines literal indent fuel { b with lastBreak, emptyLines } c

/-- Reads a block scalar, from behind its sign, inside a block of the given indentation. -/
def block? (literal : Bool) (outer : Int) (c : Cursor) : Option (String × Cursor) := do
  let (chomping, hint, c) ← blockHints? c
  let c ← c.finishLine?
  let known := hint.map fun n => if 0 ≤ outer then outer.toNat + n else n
  let (widest, emptyLines, c) ← blockBreaks known (c.rest.length + 1) 0 [] c
  let indent := known.getD (max widest (max 1 (outer + 1).toNat))
  let (b, c) ← blockLines literal indent (c.rest.length + 1) { emptyLines } c
  return (String.ofList (b.finish chomping), c)

end FieldRules.Yaml
