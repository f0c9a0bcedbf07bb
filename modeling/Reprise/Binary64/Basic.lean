/-!
Double precision numbers as their 64 bits, with exact arithmetic below them.

Every finite double is a whole number of units of 2^-1074, so sums and differences are computed in
`Int` and rounded once. The bits without the sign, read as a number, count the doubles upwards from
zero: `unitsOfRank` and `rankOfRatio` go between the two scales, and rounding is to the nearest
double, a tie to the even rank.
-/
set_option autoImplicit false

namespace Reprise

structure Binary64 where
  bits : UInt64
deriving DecidableEq, Inhabited

namespace Binary64

def signBit : Nat := 1 <<< 63

/-- Rank of infinity; the ranks above it are the NaNs. -/
def infinityRank : Nat := 2047 <<< 52

def isNegative (x : Binary64) : Bool := signBit ≤ x.bits.toNat

def rank (x : Binary64) : Nat := x.bits.toNat % signBit

def ofRank (negative : Bool) (rank : Nat) : Binary64 :=
  ⟨UInt64.ofNat (if negative then signBit + rank else rank)⟩

def zero : Binary64 := ⟨0⟩

instance : Zero Binary64 := ⟨zero⟩

def isNaN (x : Binary64) : Bool := infinityRank < x.rank

def isInfinite (x : Binary64) : Bool := x.rank == infinityRank

def isFinite (x : Binary64) : Bool := x.rank < infinityRank

def nan : Binary64 := ofRank false (infinityRank + 1 <<< 51)

def infinity (negative : Bool) : Binary64 := ofRank negative infinityRank

/-- The value of the double of this rank, in units of 2^-1074. -/
def unitsOfRank (rank : Nat) : Nat :=
  let exponent := rank >>> 52
  let fraction := rank % 1 <<< 52
  if exponent = 0 then fraction else (1 <<< 52 + fraction) <<< (exponent - 1)

def magnitude (x : Binary64) : Nat := unitsOfRank x.rank

def units (x : Binary64) : Int :=
  if x.isNegative then -(x.magnitude : Int) else (x.magnitude : Int)

def roundHalfEven (num den : Nat) : Nat :=
  let quotient := num / den
  let twice := 2 * (num % den)
  if twice < den then quotient
  else if den < twice then quotient + 1
  else quotient + quotient % 2

def roundHalfUp (num den : Nat) : Nat := (2 * num + den) / (2 * den)

/-- The rank of the double nearest to `num / den` units. Up to 2^53 units neighbours are one unit
apart; beyond, each doubling of the value doubles the distance. -/
def rankOfRatio (num den : Nat) : Nat :=
  let shift := Nat.log2 (num / den) - 52
  min (roundHalfEven num (den <<< shift) + shift <<< 52) infinityRank

def ofRatio (negative : Bool) (num den : Nat) : Binary64 := ofRank negative (rankOfRatio num den)

/-- The nearest double to a number of units; no units at all are the positive zero. -/
def ofUnits (n : Int) : Binary64 := ofRatio (n < 0) n.natAbs 1

def unitsPerOne : Nat := 1 <<< 1074

def ofInt (n : Int) : Binary64 := ofRatio (n < 0) (n.natAbs <<< 1074) 1

def neg (x : Binary64) : Binary64 := ofRank (!x.isNegative) x.rank

/-- Opposite infinities have no sum; a sum of zero is negative only if both terms are. -/
def add (x y : Binary64) : Binary64 :=
  if x.isNaN || y.isNaN then nan
  else if x.isInfinite then
    if y.isInfinite && x.isNegative != y.isNegative then nan else x
  else if y.isInfinite then y
  else if x.isNegative && y.isNegative then ofRatio true (x.magnitude + y.magnitude) 1
  else ofUnits (x.units + y.units)

def sub (x y : Binary64) : Binary64 := x.add y.neg

def divNat (x : Binary64) (n : Nat) : Binary64 :=
  if x.isNaN || x.isInfinite then x else ofRatio x.isNegative x.magnitude n

/-- Place in the order in which `-0` comes just below `0`, infinities enclose the finite numbers and
the NaNs lie outside. -/
def place (x : Binary64) : Int :=
  if x.isNegative then -(x.rank : Int) - 1 else x.rank

instance : Ord Binary64 := ⟨fun x y => compare x.place y.place⟩

/-- Equality of the numbers: the zeros agree, a NaN agrees with nothing. -/
def equals (x y : Binary64) : Bool :=
  !x.isNaN && !y.isNaN && (x.bits == y.bits || (x.rank == 0 && y.rank == 0))

/-- The nearest whole number, a half away from zero, held within 64 bits; no number counts as 0. -/
def toInt64 (x : Binary64) : Int64 :=
  if x.isNaN then 0
  else
    let whole : Int := roundHalfUp x.magnitude unitsPerOne
    if x.isNegative then Int64.ofInt (max (-whole) Int64.minValue.toInt)
    else Int64.ofInt (min whole Int64.maxValue.toInt)

end Binary64

end Reprise
