import FieldRules.Number.Decimal

/-!
# Number text

A `NumberStyle` fixes how a double is written: which exponents are written positionally, how the exponent and
the sign of zero appear, and the words for the values that are not numbers.
-/

namespace FieldRules

structure NumberStyle where
  /-- The least and the greatest exponent of the leading digit that are written positionally. -/
  plainFrom : Int
  plainUpTo : Int
  /-- Whether a whole number written positionally ends in a point and a zero. -/
  pointZero : Bool
  /-- Whether an exponent that is not negative carries a plus sign. -/
  plusSign : Bool
  /-- Whether negative zero keeps its sign. -/
  signedZero : Bool
  tie : TieRule
  nanText : String
  infinityText : String
  minusInfinityText : String

namespace NumberStyle

/-- Writes `digits` with the point after the place of the leading digit moved by `lead`. -/
def positional (pointZero : Bool) (digits : List Char) (lead : Int) : List Char :=
  if lead < 0 then '0' :: '.' :: List.replicate ((-lead).toNat - 1) '0' ++ digits
  else
    let whole := lead.toNat + 1
    if digits.length ≤ whole then
      digits ++ List.replicate (whole - digits.length) '0' ++ (if pointZero then ['.', '0'] else [])
    else digits.take whole ++ '.' :: digits.drop whole

/-- Writes `digits` with the point after the leading one and the exponent behind. -/
def scientific (plusSign : Bool) (digits : List Char) (lead : Int) : List Char :=
  let mantissa := match digits with
    | c :: d :: rest => c :: '.' :: d :: rest
    | short => short
  let sign := if lead < 0 then ['-'] else if plusSign then ['+'] else []
  mantissa ++ 'e' :: sign ++ Nat.toDigits 10 lead.natAbs

/-- Writes a decimal numeral. -/
def magnitude (style : NumberStyle) (d : Decimal) : List Char :=
  let digits := Nat.toDigits 10 d.digits
  let lead := d.exponent + digits.length - 1
  if style.plainFrom ≤ lead ∧ lead ≤ style.plainUpTo then positional style.pointZero digits lead
  else scientific style.plusSign digits lead

def render (style : NumberStyle) : Binary64 → String
  | .nan => style.nanText
  | .infinity false => style.infinityText
  | .infinity true => style.minusInfinityText
  | .finite negative rank =>
    let sign := if negative && (rank.val != 0 || style.signedZero) then ['-'] else []
    String.ofList (sign ++ style.magnitude (Decimal.shortest style.tie rank))

/-- Numbers in messages and canonical forms: positional from `1e-6` up to `1e21`, zero without a sign. -/
def display : NumberStyle where
  plainFrom := -6
  plainUpTo := 20
  pointZero := false
  plusSign := true
  signedZero := false
  tie := .up
  nanText := "NaN"
  infinityText := "Infinity"
  minusInfinityText := "-Infinity"

/-- Numbers in JSON: positional from `1e-5` up to `1e16`, and what is no number is `null`. -/
def json : NumberStyle where
  plainFrom := -5
  plainUpTo := 15
  pointZero := true
  plusSign := true
  signedZero := true
  tie := .even
  nanText := "null"
  infinityText := "null"
  minusInfinityText := "null"

/-- Numbers in YAML: as in JSON, with an unsigned exponent and words for what is no number. -/
def yaml : NumberStyle where
  plainFrom := -5
  plainUpTo := 15
  pointZero := true
  plusSign := false
  signedZero := true
  tie := .even
  nanText := ".nan"
  infinityText := ".inf"
  minusInfinityText := "-.inf"

end NumberStyle

end FieldRules
