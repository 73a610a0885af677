/-!
# Double-precision numbers

A finite double is a sign and a rank: the finite magnitudes in increasing order are numbered `0, 1, 2, …`, and
the magnitude of rank `k` is `units k` steps of `2 ^ (-1074)`. Rounding, comparison and arithmetic are exact
calculations on these whole numbers of steps. Key definitions: `units`, `rankBelow` (the largest rank at or below
a number of steps) and `ofRatio` (the double nearest to a fraction, ties to the even rank).
-/

namespace FieldRules

/-- How many magnitudes a binade has: `2 ^ 52`. -/
abbrev Binary64.binade : Nat := 0x10000000000000

/-- How many finite magnitudes there are, in 2047 binades. -/
def Binary64.top : Nat := 2047 * binade

inductive Binary64 where
  | nan
  | infinity (negative : Bool)
  | finite (negative : Bool) (rank : Fin Binary64.top)
  deriving DecidableEq

namespace Binary64

/-- How many steps make one: `2 ^ 1074`. -/
def stepsOfOne : Nat := Nat.pow 2 1074

/-- The magnitude of a rank, in steps of `2 ^ (-1074)`. -/
def units (rank : Nat) : Nat :=
  if rank < binade then rank
  else (binade + rank % binade) * Nat.pow 2 (rank / binade - 1)

/-- The largest rank whose magnitude is at most the given number of steps. -/
def rankBelow (steps : Nat) : Nat :=
  let shift := Nat.log2 steps - 52
  shift * binade + steps / Nat.pow 2 shift

/-- The rank nearest to `num / den` steps; halfway between two ranks the even one is taken. -/
def nearestRank (num den : Nat) : Nat :=
  let low := rankBelow (num / den)
  let rest := 2 * (num - units low * den)
  let gap := (units (low + 1) - units low) * den
  if rest < gap then low
  else if gap < rest then low + 1
  else if low % 2 = 0 then low else low + 1

/-- The number of a rank, infinite when the rank lies beyond the finite ones. -/
def ofRank (negative : Bool) (rank : Nat) : Binary64 :=
  if h : rank < top then finite negative ⟨rank, h⟩ else infinity negative

/-- The double nearest to `num / den`. -/
def ofRatio (negative : Bool) (num den : Nat) : Binary64 :=
  ofRank negative (nearestRank (num * stepsOfOne) den)

def zero (negative : Bool) : Binary64 := ofRank negative 0

def ofNat (n : Nat) : Binary64 := ofRatio false n 1

def isNaN : Binary64 → Bool
  | nan => true
  | _ => false

def isFinite : Binary64 → Bool
  | finite .. => true
  | _ => false

def isZero : Binary64 → Bool
  | finite _ rank => rank.val == 0
  | _ => false

/-- The place of a number in numeric order; both zeros have place 0, and NaN has none. -/
def place : Binary64 → Option Int
  | nan => none
  | infinity negative => some (if negative then -(top : Int) else top)
  | finite negative rank => some (if negative then -(rank.val : Int) else rank.val)

/-- Numeric comparison; it never holds of NaN. -/
def less (x y : Binary64) : Bool :=
  match x.place, y.place with
  | some a, some b => a < b
  | _, _ => false

/-- Numeric equality: the two zeros are equal, and NaN equals nothing. -/
def equals (x y : Binary64) : Bool :=
  match x.place, y.place with
  | some a, some b => a == b
  | _, _ => false

/-- The product of two numbers, rounded once. -/
def mul : Binary64 → Binary64 → Binary64
  | finite s x, finite t y => ofRank (s != t) (nearestRank (units x * units y) stepsOfOne)
  | infinity s, infinity t => infinity (s != t)
  | infinity s, finite t y => if y.val = 0 then nan else infinity (s != t)
  | finite s x, infinity t => if x.val = 0 then nan else infinity (s != t)
  | _, _ => nan

/-- The quotient of two numbers, rounded once. -/
def div : Binary64 → Binary64 → Binary64
  | finite s x, finite t y =>
    if y.val = 0 then (if x.val = 0 then nan else infinity (s != t))
    else ofRatio (s != t) (units x) (units y)
  | infinity s, finite t _ => infinity (s != t)
  | finite s _, infinity t => zero (s != t)
  | _, _ => nan

def neg : Binary64 → Binary64
  | nan => nan
  | infinity negative => infinity !negative
  | finite negative rank => finite (!negative) rank

/-- The weight of the sign bit in the interchange encoding: `2 ^ 63`. -/
abbrev signWeight : Nat := 0x8000000000000000

/-- The interchange encoding: the sign bit, then the rank. -/
def toBits : Binary64 → Nat
  | nan => top + binade / 2
  | infinity negative => (if negative then signWeight else 0) + top
  | finite negative rank => (if negative then signWeight else 0) + rank

/-- Reads an interchange encoding of 64 bits. -/
def ofBits (bits : Nat) : Binary64 :=
  let negative := bits / signWeight % 2 == 1
  let rank := bits % signWeight
  if h : rank < top then finite negative ⟨rank, h⟩
  else if rank = top then infinity negative
  else nan

end Binary64

end FieldRules
