import FieldRules.Number.Loose
import FieldRules.Rule.Definition
import FieldRules.Text.Case
import FieldRules.Text.Pattern
import FieldRules.Text.Units

/-!
# Built-in rules

The rules that every registry starts from. An empty value fails `required` alone: the other rules pass it, except
for `digits_between` with a lower bound that is not zero.
-/

namespace FieldRules.BuiltIn

/-- A field that can be checked must be checked, any other must have a value. -/
def required : Evaluator := fun field _ =>
  .ok (if field.kind.isCheckable then field.isChecked else !field.valueOrEmpty.isEmpty)

def isLetter (c : Char) : Bool := c.isUpper || c.isLower

def accentedLetters : List Char :=
  "áéíóúäëïöüàèìòùâêîôûçÁÉÍÓÚÄËÏÖÜÀÈÌÒÙÂÊÎÔÛÇ".toList

def isNameLetter (c : Char) : Bool := isLetter c || c == '\'' || c == ' ' || accentedLetters.contains c

/-- ASCII letters only. -/
def alpha : Evaluator := fun field _ => .ok (field.valueOrEmpty.toList.all isLetter)

/-- Letters with and without accents, apostrophes and spaces. -/
def extendedAlpha : Evaluator := fun field _ => .ok (field.valueOrEmpty.toList.all isNameLetter)

/-- The parameter at an index, which must be there. -/
def param (rule : String) (params : List RuleParam) (index : Nat) : Except Fault RuleParam :=
  match params[index]? with
  | some p => .ok p
  | none => .error (.invalidParameter rule index "a value" "nothing")

/-- Two texts are compared by their UTF-16 units, anything else as numbers. -/
def looselyGreater : RuleParam → RuleParam → Bool
  | .text l, .text r => Text.unitsGreater l r
  | l, r => r.loose.less l.loose

/-- The fault of a call whose lower bound lies above its upper bound. -/
def boundsFault (field : String) (min max : RuleParam) : Fault :=
  .invalidCall "digits_between" ("The call digits_between(" ++ field ++ "," ++ min.display ++ "," ++ max.display ++
    ") is wrong because min value is greater than max value.")

/-- The number of characters lies between two bounds; a bound that is no number bounds nothing. -/
def digitsBetween : Evaluator := fun field params => do
  let min ← param "digits_between" params 0
  let max ← param "digits_between" params 1
  if looselyGreater min max then throw (boundsFault field.name min max)
  let value := field.valueOrEmpty
  if value.isEmpty && min.loose.isZero then return true
  let length := Binary64.ofNat value.length
  return !(length.less min.loose || max.loose.less length)

/-- One side of an address: characters that do not end a line. -/
def emailPart : Text.Pattern := .plus (.noneOf ['\n', '\r', '\u2028', '\u2029'])

/-- `(X+@X+)*`, where `X` is any character that does not end a line. -/
def emailPattern : Text.Pattern := .star (.seq (.seq emailPart (.oneOf ['@'])) emailPart)

/-- Nothing at all, or something that looks like an address. -/
def email : Evaluator := fun field _ => .ok (emailPattern.matchesWhole field.valueOrEmpty.toList)

/-- The value ends in one of the types, which are divided by spaces; letter case does not count. -/
def fileType : Evaluator := fun field params => do
  let types := (← param "file_type" params 0).display
  let value := field.valueOrEmpty
  if value.isEmpty then return true
  let name := (Text.lower value).toList
  return (Text.split ' ' types).any fun type => (Text.lower type).toList.isSuffixOf name

def alphaTemplate : String := "The %field must include only alphabetic characters."

def definitions : List RuleDefinition :=
  [{ name := "required", parameterCount := 0, evaluate := required, template := "The %field is required." },
   { name := "alpha", parameterCount := 0, evaluate := alpha, template := alphaTemplate },
   { name := "extended_alpha", parameterCount := 0, evaluate := extendedAlpha, template := alphaTemplate },
   { name := "digits_between", parameterCount := 2, evaluate := digitsBetween
     template := "The %field should have between %param0 and %param1 characters." },
   { name := "email", parameterCount := 0, evaluate := email, template := "The e-mail is not correct." },
   { name := "file_type", parameterCount := 1, evaluate := fileType
     template := "The file must have one of the following types: %param0." }]

end FieldRules.BuiltIn
