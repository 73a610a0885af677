import FieldRules.Data.Value
import FieldRules.Text.Quoted

/-!
# JSON text

Data written as JSON, in one line or spread over lines with two spaces to a level.
-/

namespace FieldRules.Json

open Data (Value)

def escapeChar (c : Char) : List Char :=
  match c with
  | '"' => ['\\', '"']
  | '\\' => ['\\', '\\']
  | '\x08' => ['\\', 'b']
  | '\x0c' => ['\\', 'f']
  | '\n' => ['\\', 'n']
  | '\r' => ['\\', 'r']
  | '\t' => ['\\', 't']
  | c => if c.toNat < 0x20 then '\\' :: 'u' :: Text.hexPadded 4 c.toNat else [c]

def quote (s : String) : String :=
  String.ofList ('"' :: s.toList.flatMap escapeChar ++ ['"'])

mutual

/-- The text in one line, without spaces. -/
def render : Value → String
  | .null => "null"
  | .bool b => if b then "true" else "false"
  | .number n => n.text
  | .string s => quote s
  | .list items => "[" ++ renderItems items ++ "]"
  | .map members => "\x7b" ++ renderMembers members ++ "\x7d"

def renderItems : List Value → String
  | [] => ""
  | [v] => render v
  | v :: rest => render v ++ "," ++ renderItems rest

def renderMembers : List (String × Value) → String
  | [] => ""
  | [(k, v)] => quote k ++ ":" ++ render v
  | (k, v) :: rest => quote k ++ ":" ++ render v ++ "," ++ renderMembers rest

end

def lineBreak (level : Nat) : String := String.ofList ('\n' :: List.replicate (2 * level) ' ')

mutual

/-- The text with every item and member on a line of its own; `level` counts the enclosing lists and maps. -/
def renderAt (level : Nat) : Value → String
  | .list [] => "[]"
  | .map [] => "\x7b\x7d"
  | .list items => "[" ++ renderItemsAt (level + 1) items ++ lineBreak level ++ "]"
  | .map members => "\x7b" ++ renderMembersAt (level + 1) members ++ lineBreak level ++ "\x7d"
  | v => render v

def renderItemsAt (level : Nat) : List Value → String
  | [] => ""
  | [v] => lineBreak level ++ renderAt level v
  | v :: rest => lineBreak level ++ renderAt level v ++ "," ++ renderItemsAt level rest

def renderMembersAt (level : Nat) : List (String × Value) → String
  | [] => ""
  | [(k, v)] => lineBreak level ++ quote k ++ ": " ++ renderAt level v
  | (k, v) :: rest => lineBreak level ++ quote k ++ ": " ++ renderAt level v ++ "," ++ renderMembersAt level rest

end

def renderPretty (v : Value) : String := renderAt 0 v

end FieldRules.Json
