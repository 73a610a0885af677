import FieldRules.Data.Number

/-!
# Data to be written

What the program writes, before it is known in which format.
-/

namespace FieldRules.Data

inductive Value where
  | null
  | bool (b : Bool)
  | number (n : Number)
  | string (s : String)
  | list (items : List Value)
  | map (members : List (String × Value))

/-- A text, or nothing. -/
def Value.ofText? (s : Option String) : Value := s.elim null string

end FieldRules.Data
