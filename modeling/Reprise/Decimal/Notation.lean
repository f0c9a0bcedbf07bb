import Reprise.Decimal.Shortest

/-!
Decimal texts of doubles: plain positional text, text with a fixed number of places, and the form
with an exponent for very large and very small numbers.
-/
set_option autoImplicit false

namespace Reprise

namespace Decimal

def zeros (n : Nat) : String := String.ofList (List.replicate n '0')

/-- Writes the digits in place, with zeros up to the decimal point; no exponent at any size. -/
def positional (d : Decimal) : String :=
  let digits := toString d.coefficient
  let point := (digits.length : Int) + d.exponent
  if 0 ≤ d.exponent then digits ++ zeros d.exponent.toNat
  else if 0 < point then
    String.ofList (digits.toList.take point.toNat) ++ "."
      ++ String.ofList (digits.toList.drop point.toNat)
  else "0." ++ zeros (-point).toNat ++ digits

def scientific (d : Decimal) : String :=
  let digits := toString d.coefficient
  let power := (digits.length : Int) + d.exponent - 1
  let fraction := digits.toList.drop 1
  String.ofList (digits.toList.take 1)
    ++ (if fraction.isEmpty then "" else "." ++ String.ofList fraction)
    ++ "e" ++ toString power

end Decimal

namespace Binary64

def signed (x : Binary64) (body : String) : String := if x.isNegative then "-" ++ body else body

def nonFiniteText (x : Binary64) : String := if x.isNaN then "NaN" else x.signed "inf"

/-- Shortest digits, positional, no point in a whole number. -/
def text (x : Binary64) : String :=
  if !x.isFinite then x.nonFiniteText
  else if x.rank = 0 then x.signed "0"
  else x.signed (shortest x.rank).positional

/-- Exactly `places` digits after the point, a tie to the even digit. -/
def fixedText (places : Nat) (x : Binary64) : String :=
  if !x.isFinite then x.nonFiniteText
  else
    let scaled := roundHalfEven (x.magnitude * Decimal.tenTo places) unitsPerOne
    let fraction := toString (scaled % Decimal.tenTo places)
    x.signed (toString (scaled / Decimal.tenTo places)
      ++ (if places = 0 then "" else "." ++ Decimal.zeros (places - fraction.length) ++ fraction))

/-- Shortest digits as a JSON number that shows it is not an integer: positional from 10^-5 up to
10^16, with an exponent outside. -/
def literal (x : Binary64) : String :=
  if x.rank = 0 then x.signed "0.0"
  else
    let d := shortest x.rank
    let point := ((toString d.coefficient).length : Int) + d.exponent
    x.signed <|
      if point ≤ -5 ∨ 16 < point then d.scientific
      else if 0 ≤ d.exponent then d.positional ++ ".0"
      else d.positional

/-- The double nearest to `coefficient * 10 ^ exponent`, unless that is beyond the largest one. Far
outside the range of doubles the size alone decides, without computing the power. -/
def ofDecimal? (negative : Bool) (d : Decimal) : Option Binary64 :=
  if d.coefficient = 0 then some (ofRank negative 0)
  else if 400 < d.exponent then none
  else if d.exponent + Nat.log2 d.coefficient / 3 + 1 < -400 then some (ofRank negative 0)
  else
    let num := (d.coefficient * Decimal.tenTo d.exponent.toNat) <<< 1074
    let rank := rankOfRatio num (Decimal.tenTo (-d.exponent).toNat)
    if rank = infinityRank then none else some (ofRank negative rank)

end Binary64

end Reprise
