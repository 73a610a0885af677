import FieldRules.Text.Split

/-!
# Colours

Text in colour on a terminal: the code of the style, the text, and the code that ends every style. A style that
ends inside the text is begun anew there.
-/

namespace FieldRules

inductive Style where
  | info
  | success
  | warning
  | header
  | passed
  | failure

namespace Style

def code : Style → List Char
  | info => "\x1b[34m".toList
  | success => "\x1b[32m".toList
  | warning => "\x1b[33m".toList
  | header => "\x1b[1m".toList
  | passed => "\x1b[1;32m".toList
  | failure => "\x1b[1;31m".toList

def endCode : List Char := "\x1b[0m".toList

/-- Puts the code of a style behind every end of a style in a text. -/
def renew (code : List Char) : List Char → List Char
  | '\x1b' :: '[' :: '0' :: 'm' :: rest => endCode ++ code ++ renew code rest
  | c :: rest => c :: renew code rest
  | [] => []

/-- The text in a style, or as it is where there are no colours. -/
def paint (color : Bool) (style : Style) (text : String) : String :=
  if color then String.ofList (style.code ++ renew style.code text.toList ++ endCode) else text

end Style

end FieldRules
