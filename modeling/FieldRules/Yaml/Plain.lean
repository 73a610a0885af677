import FieldRules.Data.Number
import FieldRules.Number.Numeral

/-!
# Plain scalars

What a YAML scalar without quotes stands for in the core schema: nothing, a truth value, a number, or its text.
-/

namespace FieldRules.Yaml

open Data (Number)

inductive Plain where
  | null
  | bool (b : Bool)
  | number (n : Number)
  /-- An integer that takes more than 64 bits and at most 128. -/
  | wide
  | text

def isNull (s : String) : Bool := s == "null" || s == "Null" || s == "NULL" || s == "~"

def bool? (s : String) : Option Bool :=
  if s == "true" || s == "True" || s == "TRUE" then some true
  else if s == "false" || s == "False" || s == "FALSE" then some false
  else none

/-- Digits that begin with a zero and go on, behind any sign: a text, not a number. -/
def isPadded (cs : List Char) : Bool :=
  match (takeSign cs).2 with
  | '0' :: d :: rest => (d :: rest).all Char.isDigit
  | _ => false

def natIn? (base : Nat) (digits : List Char) : Option Nat := (digitsIn? base digits).map (ofDigitValues base)

/-- The magnitude of an integer: in base 16, 8 or 2 behind a mark, otherwise decimal. -/
def magnitude? : List Char → Option Nat
  | '0' :: 'x' :: digits => natIn? 16 digits
  | '0' :: 'o' :: digits => natIn? 8 digits
  | '0' :: 'b' :: digits => natIn? 2 digits
  | digits => natIn? 10 digits

/-- An integer of a sign and a magnitude, as far as 128 bits reach. -/
def ofInteger? (negative : Bool) (n : Nat) : Option Plain :=
  if !negative then
    if n < UInt64.size then some (.number (.natural n))
    else if n < UInt64.size * UInt64.size then some .wide
    else none
  else if n = 0 then some (.number .minusZero)
  else if n ≤ UInt64.size / 2 then some (.number (.negative n))
  else if n ≤ UInt64.size * UInt64.size / 2 then some .wide
  else none

def integer? (cs : List Char) : Option Plain := do
  let (negative, rest) := takeSign cs
  ofInteger? negative (← magnitude? rest)

/-- A float: a word for what is no finite number, or a numeral of a finite one. -/
def float? (cs : List Char) : Option Binary64 :=
  let unsigned := match cs with
    | '+' :: rest => rest
    | cs => cs
  if [".inf", ".Inf", ".INF"].contains (String.ofList unsigned) then some (.infinity false)
  else if ["-.inf", "-.Inf", "-.INF"].contains (String.ofList cs) then some (.infinity true)
  else if [".nan", ".NaN", ".NAN"].contains (String.ofList cs) then some .nan
  else ((Numeral.ofText? cs).map Numeral.toBinary64).filter Binary64.isFinite

/-- What a plain scalar stands for. -/
def Plain.ofText (s : String) : Plain :=
  if s.isEmpty || isNull s then .null
  else
    match bool? s with
    | some b => .bool b
    | none =>
      if isPadded s.toList then .text
      else
        match integer? s.toList, float? s.toList with
        | some p, _ => p
        | none, some x => .number (.real x)
        | none, none => .text

end FieldRules.Yaml
