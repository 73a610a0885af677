import FieldRules.Text.Split

/-!
# Log filters

A log level may be a list of directives divided by commas. A directive is a level, or the name of a part of the
program or a span in brackets, or both, and a level behind an equals sign. `isFilter` tells which texts are lists
of directives.
-/

namespace FieldRules.LogFilter

/-- Whether a text names a level: by a word in any letter case, by a number up to five, or by nothing at all. -/
def isLevel (cs : List Char) : Bool :=
  let word := String.ofList (cs.map Char.toLower)
  let digits := match cs with
    | '+' :: rest => rest
    | cs => cs
  ["", "off", "error", "warn", "info", "debug", "trace"].contains word ||
    (!digits.isEmpty && digits.all Char.isDigit && (digits.dropWhile (· == '0')).length ≤ 1 &&
      digits.all (· ≤ '5'))

/-- Whether nothing follows, or an equals sign and a level. -/
def isLevelPart : List Char → Bool
  | [] => true
  | c :: rest => c == '=' && isLevel rest

/-- Whether a span goes on to its closing bracket, with the fields of the span in braces before it, and ends in
a level at most. -/
def isSpanPart (cs : List Char) : Bool :=
  match cs.dropWhile fun c => c != ']' && c != '\x7b' with
  | ']' :: rest => isLevelPart rest
  | '\x7b' :: rest =>
    match rest.takeWhile (· != '\x7d'), rest.dropWhile (· != '\x7d') with
    | _ :: _, '\x7d' :: ']' :: rest => isLevelPart rest
    | _, _ => false
  | _ => false

/-- Whether a name may begin with a character. -/
def startsName (c : Char) : Bool := c.isAlphanum || c == '-' || c == ':' || c == '_' || 0x80 ≤ c.toNat

def isDirective : List Char → Bool
  | [] => false
  | '[' :: rest => isSpanPart rest
  | c :: rest =>
    startsName c &&
      match rest.dropWhile fun c => c != '=' && c != '[' with
      | '[' :: rest => isSpanPart rest
      | rest => isLevelPart rest

/-- Whether a text is a list of directives, which may be empty. -/
def isFilter (level : String) : Bool := level.isEmpty || (Text.pieces ',' level.toList).all isDirective

end FieldRules.LogFilter
