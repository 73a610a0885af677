/-!
# Characters of YAML

The classes of characters that YAML text is made of.
-/

namespace FieldRules.Yaml

/-- Characters that end a line. -/
def isBreak (c : Char) : Bool :=
  c == '\n' || c == '\r' || c == '\u0085' || c == '\u2028' || c == '\u2029'

/-- Characters that may stand in written text without an escape, tabs apart. -/
def isPrintable (c : Char) : Bool :=
  let n := c.toNat
  n == 0xA || (0x20 ≤ n && n ≤ 0x7E) || (0xA0 ≤ n && n ≤ 0xFFFD && n != 0xFEFF) || 0x10000 ≤ n

/-- Characters that may stand in a text at all. -/
def isAllowed (c : Char) : Bool :=
  let n := c.toNat
  n == 0x9 || n == 0xA || n == 0xD || n == 0x85 || (0x20 ≤ n && n ≤ 0x7E) || (0xA0 ≤ n && n ≤ 0xFFFD) || 0x10000 ≤ n

def isSpace (c : Char) : Bool := c == ' '

def isBlank (c : Char) : Bool := c == ' ' || c == '\t'

/-- Letters, digits, underscores and dashes: what the names of anchors and tag handles are made of. -/
def isWordChar (c : Char) : Bool := c.isAlphanum || c == '_' || c == '-'

/-- Whether a break or the end stands at the start of a text. -/
def breakAhead : List Char → Bool
  | [] => true
  | c :: _ => c == '\x00' || isBreak c

/-- Whether a blank, a break or the end stands at the start of a text. -/
def blankAhead : List Char → Bool
  | [] => true
  | c :: rest => isBlank c || breakAhead (c :: rest)

end FieldRules.Yaml
