import FieldRules.Rule.Param
import FieldRules.Text.Blank
import FieldRules.Text.Split

/-!
# Rule calls

A rule call is a name with parameters, written `name` or `name(p0,p1,…)`. `RuleCall.canonical` writes one and
`RuleCall.parse` reads one: the name is made of lower-case ASCII letters, underscores and dashes; the parameters
are everything between the first opening and the last closing parenthesis, divided at commas and not trimmed.
-/

namespace FieldRules

structure RuleCall where
  name : String
  params : List RuleParam
  deriving DecidableEq

/-- Why a token is no rule call. -/
inductive ParseFault where
  | noExpression
  | badStart (c : Char)
  | badAfterName (c : Char)
  | unclosed
  | noParams
  | lineBreak
  /-- A reason given from outside. -/
  | stated (reason : String)
  deriving DecidableEq

def ParseFault.message : ParseFault → String
  | noExpression => "empty rule expression"
  | badStart c => "rule name must start with [a-z_-], found '" ++ c.toString ++ "'"
  | badAfterName c => "unexpected character '" ++ c.toString ++ "' after rule name"
  | unclosed => "missing closing parenthesis"
  | noParams => "empty parameter list"
  | lineBreak => "line break inside parameter list"
  | stated reason => reason

namespace RuleCall

def isNameChar (c : Char) : Bool := c.isLower || c == '_' || c == '-'

/-- The number of arguments that a rule receives, the field included. -/
def argumentCount (call : RuleCall) : Nat := call.params.length + 1

def canonical (call : RuleCall) : String :=
  match call.params with
  | [] => call.name
  | params => call.name ++ "(" ++ ",".intercalate (params.map RuleParam.display) ++ ")"

/-- Equality of calls, with numbers compared as numbers. -/
def same (a b : RuleCall) : Bool :=
  a.name == b.name && a.params.length == b.params.length && (a.params.zip b.params).all fun (p, q) => p.same q

/-- What stands between the parentheses, given what follows the name. -/
def inner (afterName : List Char) : Except ParseFault (List Char) :=
  match afterName with
  | '(' :: rest =>
    if rest.getLast? = some ')' then
      let inner := rest.dropLast
      if inner.isEmpty then .error .noParams
      else if inner.any Text.isLineBreak then .error .lineBreak
      else .ok inner
    else .error .unclosed
  | c :: _ => .error (.badAfterName c)
  | [] => .error .noParams

def parseParams : List Char → Except ParseFault (List RuleParam)
  | [] => .ok []
  | rest => do
    let inner ← inner rest
    return (Text.pieces ',' inner).map fun cs => .ofRaw (String.ofList cs)

/-- Reads a token as a rule call. -/
def parse (token : String) : Except ParseFault RuleCall :=
  let cs := token.toList
  match cs.takeWhile isNameChar, cs with
  | [], [] => .error .noExpression
  | [], c :: _ => .error (.badStart c)
  | name, cs => do
    let params ← parseParams (cs.dropWhile isNameChar)
    return ⟨String.ofList name, params⟩

/-- The tokens of a rule string, in order. -/
def tokens (rules : String) : List String := Text.split '|' rules

end RuleCall

end FieldRules
