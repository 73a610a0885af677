import FieldRules.Data.Number

/-!
# Data as it is read

What a document says before it is known what it is meant for: scalars, lists, and maps whose keys may be any
data. Maps keep their entries in the order of the document, repeated keys included.
-/

namespace FieldRules.Data

inductive Node where
  | null
  | bool (b : Bool)
  | number (n : Number)
  | string (s : String)
  | list (items : List Node)
  | map (entries : List (Node × Node))

end FieldRules.Data
