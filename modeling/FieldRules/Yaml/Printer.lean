import FieldRules.Data.Value
import FieldRules.Text.Quoted
import FieldRules.Yaml.Character
import FieldRules.Yaml.Plain

/-!
# YAML text

Data written as YAML in block style. Lists stand at the indentation of the key they belong to. A text is written
plain where that reads back as the same text, otherwise in single quotes, over several lines, or, when nothing
else can hold it, in double quotes.
-/

namespace FieldRules.Yaml

open Data (Value)

/-- Whether the first character of a plain text would be taken for something else. -/
def startsAsSign : List Char → Bool
  | [] => false
  | c :: rest => "#,[]\x7b\x7d&*!|>'\"%@`".toList.contains c || ("?:-".toList.contains c && blankAhead rest)

/-- Whether a colon before a blank or a sharp behind one stands in a text, the character before which is given. -/
def hasInnerSign (before : Char) : List Char → Bool
  | [] => false
  | c :: rest =>
    (c == ':' && blankAhead rest) || (c == '#' && blankAhead [before]) || hasInnerSign c rest

/-- Whether two neighbours of the given kinds stand in a text. -/
def hasPair (first second : Char → Bool) : List Char → Bool
  | a :: b :: rest => (first a && second b) || hasPair first second (b :: rest)
  | _ => false

def endsIn (p : Char → Bool) (cs : List Char) : Bool := cs.getLast?.any p

def allowsPlain (cs : List Char) : Bool :=
  let marker := "---".toList.isPrefixOf cs || "...".toList.isPrefixOf cs
  let inner := match cs with
    | c :: rest => hasInnerSign c rest
    | [] => false
  cs.all isPrintable && !cs.any isBreak && !cs.head?.any isSpace && !endsIn isSpace cs &&
    !marker && !startsAsSign cs && !inner

def allowsSingle (cs : List Char) : Bool :=
  cs.all isPrintable && !hasPair isBreak isSpace cs && !hasPair isSpace isBreak cs

def allowsLiteral (cs : List Char) : Bool :=
  cs.all isPrintable && !hasPair isSpace isBreak cs && !endsIn isSpace cs

inductive ScalarStyle where
  | plain
  | single
  | double
  | literal
  deriving DecidableEq

/-- The style that a text is written in; keys never spread over lines. -/
def styleOf (isKey : Bool) (s : String) : ScalarStyle :=
  let cs := s.toList
  let quoted := if allowsSingle cs && !(isKey && cs.any isBreak) then ScalarStyle.single else .double
  if cs.contains '\n' then if allowsLiteral cs && !isKey then .literal else .double
  else
    match Plain.ofText s with
    | .text => if isPadded cs then quoted else if allowsPlain cs then .plain else quoted
    | _ => quoted

def spaces (n : Nat) : List Char := List.replicate n ' '

/-- Doubles quotes, and indents what follows a break. -/
def singleBody (indent : Nat) (atBreak : Bool) : List Char → List Char
  | [] => []
  | c :: rest =>
    if isBreak c then c :: singleBody indent true rest
    else
      let lead := if atBreak then spaces indent else []
      let body := if c == '\'' then ['\'', '\''] else [c]
      lead ++ body ++ singleBody indent false rest

/-- The lines of a text, each indented unless it is empty. -/
def literalBody (indent : Nat) (atBreak : Bool) : List Char → List Char
  | [] => []
  | c :: rest =>
    if isBreak c then c :: literalBody indent true rest
    else (if atBreak then spaces indent else []) ++ c :: literalBody indent false rest

/-- Whether a text begins with a space or a break, and how its end is kept: dropped, one break, or all of them. -/
def literalHints (cs : List Char) : List Char :=
  let lead := if cs.head?.any fun c => isSpace c || isBreak c then ['2'] else []
  let chomp := match cs.reverse with
    | [] => ['-']
    | [c] => if isBreak c then ['+'] else ['-']
    | c :: d :: _ => if !isBreak c then ['-'] else if isBreak d then ['+'] else []
  lead ++ chomp

def upperHex (width n : Nat) : List Char := (Text.hexPadded width n).map Char.toUpper

def escapeDouble (c : Char) : List Char :=
  match c with
  | '\x00' => ['\\', '0']
  | '\x07' => ['\\', 'a']
  | '\x08' => ['\\', 'b']
  | '\t' => ['\\', 't']
  | '\n' => ['\\', 'n']
  | '\x0b' => ['\\', 'v']
  | '\x0c' => ['\\', 'f']
  | '\r' => ['\\', 'r']
  | '\x1b' => ['\\', 'e']
  | '"' => ['\\', '"']
  | '\\' => ['\\', '\\']
  | '\u0085' => ['\\', 'N']
  | '\u2028' => ['\\', 'L']
  | '\u2029' => ['\\', 'P']
  | c =>
    let n := c.toNat
    if isPrintable c then [c]
    else if n ≤ 0xFF then '\\' :: 'x' :: upperHex 2 n
    else if n ≤ 0xFFFF then '\\' :: 'u' :: upperHex 4 n
    else '\\' :: 'U' :: upperHex 8 n

/-- A text as a scalar whose further lines stand at the given indentation. -/
def scalar (isKey : Bool) (indent : Nat) (s : String) : List Char :=
  let cs := s.toList
  match styleOf isKey s with
  | .plain => cs
  | .single => '\'' :: singleBody indent false cs ++ ['\'']
  | .double => '"' :: cs.flatMap escapeDouble ++ ['"']
  | .literal => '|' :: literalHints cs ++ '\n' :: literalBody indent true cs

/-- A scalar and the end of its line, which a text over several lines may have of its own. -/
def scalarLine (indent : Nat) (s : String) : List Char :=
  let cs := scalar false indent s
  if styleOf false s = .literal && endsIn isBreak s.toList then cs else cs ++ ['\n']

/-- Whether a key fits before a colon: short enough and in one line. -/
def isSimpleKey (s : String) : Bool := s.utf8ByteSize ≤ 128 && !s.toList.any isBreak

def numberText : Data.Number → String
  | .real x => NumberStyle.yaml.render x
  | n => n.text

/-- Data that takes no further structure: a scalar, or a list or map without content. -/
def leaf (indent : Nat) : Value → List Char
  | .null => "null\n".toList
  | .bool b => (if b then "true\n" else "false\n").toList
  | .number n => (numberText n).toList ++ ['\n']
  | .string s => scalarLine indent s
  | .list _ => "[]\n".toList
  | .map _ => "\x7b\x7d\n".toList

mutual

/-- Data from the current column on, with the lines that follow the first at the given indentation. -/
def block (indent : Nat) : Value → List Char
  | .list vs => if vs.isEmpty then leaf indent (.list []) else (items indent vs).drop indent
  | .map es => if es.isEmpty then leaf indent (.map []) else (entries indent es).drop indent
  | v => leaf indent v

/-- The items of a list, each on a line of its own. -/
def items (indent : Nat) : List Value → List Char
  | [] => []
  | v :: rest => spaces indent ++ '-' :: ' ' :: block (indent + 2) v ++ items indent rest

/-- The entries of a map, each on a line of its own. -/
def entries (indent : Nat) : List (String × Value) → List Char
  | [] => []
  | (k, v) :: rest =>
    let entry :=
      if isSimpleKey k then scalar true indent k ++ ':' :: afterKey indent v
      else '?' :: ' ' :: scalarLine (indent + 2) k ++ spaces indent ++ ':' :: ' ' :: block (indent + 2) v
    spaces indent ++ entry ++ entries indent rest

/-- The value behind a key and a colon: lists and maps begin on a line of their own. -/
def afterKey (indent : Nat) : Value → List Char
  | .list vs => if vs.isEmpty then ' ' :: leaf indent (.list []) else '\n' :: items indent vs
  | .map es => if es.isEmpty then ' ' :: leaf indent (.map []) else '\n' :: entries (indent + 2) es
  | v => ' ' :: leaf (indent + 2) v

end

def render (v : Value) : String :=
  String.ofList (match v with
    | .string s => scalarLine 2 s
    | v => block 0 v)

end FieldRules.Yaml
