import FieldRules.Rule.Param
import FieldRules.Text.Split

/-!
# Messages

A message template names the field as `%field` and the parameters as `%param0`, `%param1`, …. The first of each is
replaced, and text that was put in for one of them is never searched for another.
-/

namespace FieldRules.Message

/-- A piece of a message: template text that is still searched, or text that was put in. -/
inductive Segment where
  | template (cs : List Char)
  | inserted (cs : List Char)

def Segment.chars : Segment → List Char
  | template cs => cs
  | inserted cs => cs

/-- Replaces the first occurrence of a token in template text. -/
def replaceFirst (token replacement : List Char) : List Segment → List Segment
  | [] => []
  | .inserted cs :: rest => .inserted cs :: replaceFirst token replacement rest
  | .template cs :: rest =>
    match Text.breakAt? token cs with
    | some (before, after) => .template before :: .inserted replacement :: .template after :: rest
    | none => .template cs :: replaceFirst token replacement rest

def paramToken (index : Nat) : List Char := "%param".toList ++ Nat.toDigits 10 index

/-- Replaces the tokens of the parameters, the first of which has the given index. -/
def insertParams (index : Nat) : List RuleParam → List Segment → List Segment
  | [], segments => segments
  | p :: rest, segments =>
    insertParams (index + 1) rest (replaceFirst (paramToken index) p.display.toList segments)

def render (template field : String) (params : List RuleParam) : String :=
  let segments := replaceFirst "%field".toList field.toList [.template template.toList]
  String.ofList ((insertParams 0 params segments).flatMap Segment.chars)

end FieldRules.Message
