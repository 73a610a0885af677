/-!
# UTF-16 units

The code units of a text and the order they give: a character above U+FFFF counts as two surrogates, so it comes
before the characters from U+E000 to U+FFFF.
-/

namespace FieldRules.Text

def charUnits (c : Char) : List Nat :=
  let n := c.toNat
  if n < 0x10000 then [n] else [0xD800 + (n - 0x10000) / 0x400, 0xDC00 + (n - 0x10000) % 0x400]

def units16 (s : String) : List Nat := s.toList.flatMap charUnits

/-- Whether the left text comes after the right one, unit by unit. -/
def unitsGreater (left right : String) : Bool := decide (units16 right < units16 left)

end FieldRules.Text
