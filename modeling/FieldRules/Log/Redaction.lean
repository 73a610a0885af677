import FieldRules.Text.Blank
import FieldRules.Text.Case
import FieldRules.Text.Split

/-!
# Redaction

Secrets are kept out of logs in two ways. In free text, a secret word followed by a separator and a value of at
least three characters becomes `word=***`. The value of a field whose name speaks of a secret is not shown at all.
-/

namespace FieldRules.Redaction

/-- The words that announce a secret in free text. -/
def secretWords : List (List Char) :=
  ["api_key", "api-key", "apikey", "token", "bearer", "password", "passwd", "pwd", "secret"].map String.toList

/-- Whether a character spells a lower-case ASCII letter or sign in either case; `K` has a third form, the Kelvin
sign, and `S` the long s. -/
def spells (c letter : Char) : Bool :=
  c.toLower == letter || (letter == 'k' && c == '\u212a') || (letter == 's' && c == '\u017f')

/-- What follows a word at the start of a text. -/
def afterWord? : List Char → List Char → Option (List Char)
  | [], cs => some cs
  | _ :: _, [] => none
  | w :: word, c :: cs => if spells c w then afterWord? word cs else none

def isSeparator (c : Char) : Bool := c == '=' || c == ':' || Text.isBlank c

def isQuote (c : Char) : Bool := c == '\'' || c == '"'

def isValueChar (c : Char) : Bool := !Text.isBlank c && !isQuote c

def dropQuote : List Char → List Char
  | c :: rest => if isQuote c then rest else c :: rest
  | [] => []

/-- What follows a value at the start of a text: the value may stand in quotes and has at least three
characters. -/
def afterValue? (cs : List Char) : Option (List Char) :=
  let cs := dropQuote cs
  if 3 ≤ (cs.takeWhile isValueChar).length then some (dropQuote (cs.dropWhile isValueChar)) else none

/-- What follows separators and a value, the separators being as many as possible but at most `count`. -/
def afterSeparators? (cs : List Char) : Nat → Option (List Char)
  | 0 => none
  | count + 1 =>
    match afterValue? (cs.drop (count + 1)) with
    | some rest => some rest
    | none => afterSeparators? cs count

/-- A secret at the start of a text: its word as written, and what follows its value. -/
def secretAt? (cs : List Char) : Option (List Char × List Char) := do
  let afterWord ← secretWords.findSome? fun word => afterWord? word cs
  let rest ← afterSeparators? afterWord (afterWord.takeWhile isSeparator).length
  return (cs.take (cs.length - afterWord.length), rest)

/-- Redacts a text after passing over the characters of a secret that were dealt with already. -/
def redactFrom (skip : Nat) : List Char → List Char
  | [] => []
  | c :: cs =>
    match skip with
    | skip + 1 => redactFrom skip cs
    | 0 =>
      match secretAt? (c :: cs) with
      | some (word, rest) => word ++ "=***".toList ++ redactFrom (cs.length - rest.length) cs
      | none => c :: redactFrom 0 cs

def redact (text : String) : String := String.ofList (redactFrom 0 text.toList)

/-- Whether the name of a field speaks of a secret. -/
def isSensitive (name : String) : Bool :=
  ["key", "token", "password", "passwd", "secret", "credential"].any fun word =>
    Text.occursIn word.toList (Text.lower name).toList

/-- The value of a field as it may appear in a log. -/
def fieldValue (name value : String) : String := if isSensitive name then "***" else redact value

end FieldRules.Redaction
