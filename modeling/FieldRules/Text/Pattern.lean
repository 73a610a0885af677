/-!
# Patterns

Regular patterns over characters, and whether a whole text follows one. A text is read character by character; after
each of them, the patterns that the rest may follow are kept, one for every way in which what was read may have been
taken in.
-/

namespace FieldRules.Text

inductive Pattern where
  /-- Nothing more. -/
  | done
  /-- One of the characters. -/
  | oneOf (chars : List Char)
  /-- One character, and none of these. -/
  | noneOf (chars : List Char)
  /-- The one, then the other. -/
  | seq (first second : Pattern)
  /-- Any number of times, one after the other. -/
  | star (p : Pattern)
  deriving DecidableEq

namespace Pattern

/-- At least once. -/
def plus (p : Pattern) : Pattern := seq p (star p)

/-- Whether the empty text follows a pattern. -/
def isNullable : Pattern → Bool
  | done | star _ => true
  | oneOf _ | noneOf _ => false
  | seq p q => p.isNullable && q.isNullable

/-- What may follow a character that a pattern begins with. -/
def rests (c : Char) : Pattern → List Pattern
  | done => []
  | oneOf chars => if chars.contains c then [done] else []
  | noneOf chars => if chars.contains c then [] else [done]
  | seq p q => (p.rests c).map (seq · q) ++ if p.isNullable then q.rests c else []
  | star p => (p.rests c).map (seq · (star p))

/-- Whether a text follows one of some patterns. Patterns that were come to in several ways are kept once. -/
def anyMatches : List Pattern → List Char → Bool
  | ps, [] => ps.any isNullable
  | ps, c :: cs => anyMatches (ps.flatMap (rests c)).eraseDups cs

/-- Whether a text follows a pattern from its first character to its last. -/
def matchesWhole (p : Pattern) (cs : List Char) : Bool := anyMatches [p] cs

end Pattern

end FieldRules.Text
