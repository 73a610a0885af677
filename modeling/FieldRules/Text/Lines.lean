import FieldRules.Text.Split

/-!
# Lines of text

The lines of a text, without the breaks that end them. A carriage return before a line feed belongs to the break.
-/

namespace FieldRules.Text

/-- Drops a carriage return from the end. -/
def dropReturn (cs : List Char) : List Char := if cs.getLast? = some '\r' then cs.dropLast else cs

/-- The lines among the pieces between line feeds: nothing follows the last line feed. -/
def linesOfPieces : List (List Char) → List (List Char)
  | [] => []
  | [last] => if last.isEmpty then [] else [last]
  | line :: rest => dropReturn line :: linesOfPieces rest

def lines (s : String) : List String := (linesOfPieces (pieces '\n' s.toList)).map String.ofList

end FieldRules.Text
