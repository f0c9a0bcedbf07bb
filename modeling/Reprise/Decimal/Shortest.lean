import Reprise.Binary64.Basic

/-!
The shortest decimal that reads back as a given double.

The reals that round to a double form an interval between the midpoints to its neighbours, the ends
included iff its rank is even. On the grid of `d` significant digits only the two points around the
double can lie nearest to it, so the first `d` with one of them in the interval gives the shortest
decimal; of two points the nearer is taken, and on a tie the upper.
-/
set_option autoImplicit false

namespace Reprise

structure Decimal where
  coefficient : Nat
  exponent : Int
deriving DecidableEq, Repr

namespace Decimal

def tenTo (n : Nat) : Nat := Nat.pow 10 n

def stripZeros : Nat → Decimal → Decimal
  | 0, d => d
  | fuel + 1, d =>
    if d.coefficient ≠ 0 ∧ d.coefficient % 10 = 0 then
      stripZeros fuel ⟨d.coefficient / 10, d.exponent + 1⟩
    else d

end Decimal

namespace Binary64

/-- The `e` with `10^e ≤ u * 2^-1074 < 10^(e+1)`: an estimate from the binary exponent, then set
right by one comparison each way. -/
def decimalExponent (u : Nat) : Int :=
  let estimate : Int := ((Nat.log2 u : Int) - 1074) * 30103 / 100000
  let reaches (e : Int) : Bool :=
    if 0 ≤ e then Decimal.tenTo e.toNat <<< 1074 ≤ u else 1 <<< 1074 ≤ u * Decimal.tenTo (-e).toNat
  if reaches (estimate + 1) then estimate + 1
  else if reaches estimate then estimate
  else estimate - 1

/-- The decimal nearest to a double of this rank among those of `d` significant digits, if it reads
back as that double. -/
def decimalOfDigits? (rank d : Nat) : Option Decimal :=
  let u := unitsOfRank rank
  let exponent := decimalExponent u - d + 1
  let up := Decimal.tenTo exponent.toNat <<< 1075
  let down := Decimal.tenTo (-exponent).toNat
  let low := (unitsOfRank (rank - 1) + u) * down
  let high := (u + unitsOfRank (rank + 1)) * down
  let twice := 2 * u * down
  let within (c : Nat) : Bool :=
    if rank % 2 = 0 then low ≤ c * up && c * up ≤ high else low < c * up && c * up < high
  let floor := twice / up
  let upper := floor + 1
  if within floor && (!within upper || twice - floor * up < upper * up - twice) then
    some ⟨floor, exponent⟩
  else if within upper then some ⟨upper, exponent⟩
  else none

/-- Seventeen digits always suffice. -/
def shortest (rank : Nat) : Decimal :=
  let found := (List.range 17).findSome? fun i => decimalOfDigits? rank (i + 1)
  (found.getD ⟨0, 0⟩).stripZeros 17

end Binary64

end Reprise
