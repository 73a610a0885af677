import FieldRules.Text.Quoted

/-!
# TOML text

Tables of texts and truth values written as TOML. A text takes the first of these forms that holds it without an
escape: double quotes, single quotes, three double quotes, three single quotes; otherwise it is escaped.
-/

namespace FieldRules.Toml

inductive Value where
  | bool (b : Bool)
  | string (s : String)

/-- The length of the longest run of a character. -/
def longestRun (c : Char) (run : Nat) : List Char → Nat
  | [] => 0
  | d :: rest => if d = c then max (run + 1) (longestRun c (run + 1) rest) else longestRun c 0 rest

def isControl (c : Char) : Bool := (c.toNat < 0x20 || c.toNat == 0x7F) && c != '\t'

/-- Escapes a text for double quotes. A run of `quotes` quotes may stand as it is; breaks may where `keepBreaks`
says so. -/
def escape (keepBreaks : Bool) (quotes run : Nat) : List Char → List Char
  | [] => []
  | c :: rest =>
    let next (cs : List Char) := cs ++ escape keepBreaks quotes 0 rest
    match c with
    | '"' =>
      if run < quotes then c :: escape keepBreaks quotes (run + 1) rest
      else '\\' :: '"' :: escape keepBreaks quotes 0 rest
    | '\x08' => next ['\\', 'b']
    | '\t' => next ['\\', 't']
    | '\n' => next (if keepBreaks then ['\n'] else ['\\', 'n'])
    | '\x0c' => next ['\\', 'f']
    | '\r' => next ['\\', 'r']
    | '\\' => next ['\\', '\\']
    | c => next (if isControl c then '\\' :: 'u' :: (Text.hexPadded 4 c.toNat).map Char.toUpper else [c])

def basic (cs : List Char) : List Char := '"' :: escape false 0 0 cs ++ ['"']

def literal (cs : List Char) : List Char := '\'' :: cs ++ ['\'']

/-- The text of a value; one with line breaks begins on a line of its own. -/
def textValue (s : String) : String :=
  let cs := s.toList
  let hasBreak := cs.contains '\n'
  let needsEscape := cs.any fun c => isControl c && c != '\n'
  let backslash := cs.contains '\\'
  let singles := longestRun '\'' 0 cs
  let doubles := longestRun '"' 0 cs
  let start := if hasBreak then ['\n'] else []
  let multiline := ['"', '"', '"'] ++ start ++ escape true 2 0 cs ++ ['"', '"', '"']
  String.ofList (
    if !needsEscape && !backslash && doubles = 0 && !hasBreak then basic cs
    else if !needsEscape && singles = 0 && !hasBreak then literal cs
    else if !needsEscape && !backslash && doubles ≤ 2 then multiline
    else if !needsEscape && singles ≤ 2 then ['\'', '\'', '\''] ++ start ++ cs ++ ['\'', '\'', '\'']
    else if hasBreak then multiline
    else basic cs)

/-- A key: bare when it is made of ASCII letters, digits, underscores and dashes, otherwise quoted. -/
def key (s : String) : String :=
  let cs := s.toList
  let needsEscape := cs.any isControl
  let backslash := cs.contains '\\'
  String.ofList (
    if !cs.isEmpty && cs.all fun c => c.isAlphanum || c == '_' || c == '-' then cs
    else if !needsEscape && !backslash && !cs.contains '"' then basic cs
    else if !needsEscape && !cs.contains '\'' then literal cs
    else basic cs)

def Value.text : Value → String
  | bool b => if b then "true" else "false"
  | string s => textValue s

/-- A table: its name in brackets and a line for each value. -/
def table (name : String) (values : List (String × Value)) : String :=
  "[" ++ key name ++ "]\n" ++ String.join (values.map fun (k, v) => key k ++ " = " ++ v.text ++ "\n")

/-- Tables with an empty line between them. -/
def render (tables : List (String × List (String × Value))) : String :=
  "\n".intercalate (tables.map fun (name, values) => table name values)

end FieldRules.Toml
