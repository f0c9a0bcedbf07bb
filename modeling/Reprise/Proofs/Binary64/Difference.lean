import Reprise.Proofs.Binary64.Order

/-!
Rounding is monotone, and so are differences: the further apart two doubles are, the greater is the
rounded difference.
-/
set_option autoImplicit false

namespace Reprise

namespace Binary64

section Rounding

theorem le_roundHalfEven (num den : Nat) : num / den ≤ roundHalfEven num den := by
  simp only [roundHalfEven]
  split
  · exact Nat.le_refl _
  · split <;> omega

theorem roundHalfEven_le (num den : Nat) : roundHalfEven num den ≤ num / den + 1 := by
  simp only [roundHalfEven]
  split
  · omega
  · split <;> omega

theorem roundHalfEven_mono {m n : Nat} (h : m ≤ n) (den : Nat) :
    roundHalfEven m den ≤ roundHalfEven n den := by
  have quotients : m / den ≤ n / den := Nat.div_le_div_right h
  cases Nat.lt_or_eq_of_le quotients with
  | inl lt =>
    calc roundHalfEven m den
        ≤ m / den + 1 := roundHalfEven_le m den
      _ ≤ n / den := lt
      _ ≤ roundHalfEven n den := le_roundHalfEven n den
  | inr same =>
    have rests : m % den ≤ n % den := by
      have hm := Nat.div_add_mod m den
      have hn := Nat.div_add_mod n den
      rw [same] at hm
      omega
    simp only [roundHalfEven, same]
    -- a greater rest cannot fall back below the half
    split
    · split
      · exact Nat.le_refl _
      · split <;> omega
    · split
      · exact Nat.le_of_eq (by rw [if_neg (by omega), if_pos (by omega)])
      · rw [if_neg (by omega)]
        split <;> omega

theorem roundHalfEven_le_of_lt {num den bound : Nat} (h : num < bound * den) :
    roundHalfEven num den ≤ bound := by
  have below : num / den < bound := Nat.div_lt_of_lt_mul (Nat.mul_comm bound den ▸ h)
  exact Nat.le_trans (roundHalfEven_le num den) below

theorem le_roundHalfEven_of_le {num den bound : Nat} (pos : 0 < den) (h : bound * den ≤ num) :
    bound ≤ roundHalfEven num den :=
  Nat.le_trans ((Nat.le_div_iff_mul_le pos).mpr h) (le_roundHalfEven num den)

/-- How far the units of a number are beyond those of the least doubles. -/
def excess (n : Nat) : Nat := Nat.log2 n - 52

theorem rankOfRatio_one (n : Nat) : rankOfRatio n 1 =
    min (roundHalfEven n (1 <<< excess n) + excess n <<< 52) infinityRank := by
  rw [rankOfRatio, Nat.div_one, excess]

theorem rankOfRatio_le (num den : Nat) : rankOfRatio num den ≤ infinityRank := Nat.min_le_right _ _

theorem excess_mono {m n : Nat} (h : m ≤ n) : excess m ≤ excess n := by
  by_cases zero : m = 0
  · simp [zero, excess]
  · have above : n ≠ 0 := by omega
    have powers := (Nat.le_log2 above).mpr (Nat.le_trans (Nat.log2_self_le zero) h)
    exact Nat.sub_le_sub_right powers 52

theorem lt_of_excess (n : Nat) : n < (1 <<< 53) * (1 <<< excess n) := by
  have power : Nat.log2 n + 1 ≤ 53 + excess n := by
    rw [excess]
    omega
  calc n < 1 <<< (Nat.log2 n + 1) := by
        rw [Nat.one_shiftLeft]
        exact Nat.lt_log2_self
    _ ≤ 1 <<< (53 + excess n) := shiftLeft_mono (Nat.le_refl _) power
    _ = (1 <<< 53) * (1 <<< excess n) := by
        rw [Nat.one_shiftLeft, Nat.one_shiftLeft, Nat.one_shiftLeft, Nat.pow_add]

theorem le_of_excess {n : Nat} (pos : 0 < excess n) : (1 <<< 52) * (1 <<< excess n) ≤ n := by
  have large : n ≠ 0 := by
    rintro rfl
    simp [excess] at pos
  have power : 52 + excess n = Nat.log2 n := by
    rw [excess] at pos ⊢
    omega
  rw [Nat.one_shiftLeft, Nat.one_shiftLeft, ← Nat.pow_add, power]
  exact Nat.log2_self_le large

/-- Between two shifts lies the rank at which the units double. -/
theorem rankOfRatio_mono {m n : Nat} (h : m ≤ n) : rankOfRatio m 1 ≤ rankOfRatio n 1 := by
  rw [rankOfRatio_one, rankOfRatio_one]
  have capped : ∀ a b : Nat, a ≤ b → min a infinityRank ≤ min b infinityRank := by omega
  apply capped
  cases Nat.lt_or_eq_of_le (excess_mono h) with
  | inl lt =>
    have low : roundHalfEven m (1 <<< excess m) ≤ 1 <<< 53 :=
      roundHalfEven_le_of_lt (lt_of_excess m)
    have high : 1 <<< 52 ≤ roundHalfEven n (1 <<< excess n) :=
      le_roundHalfEven_of_le (by simp only [Nat.one_shiftLeft, Nat.two_pow_pos])
        (le_of_excess (Nat.lt_of_le_of_lt (Nat.zero_le _) lt))
    simp only [Nat.shiftLeft_eq] at low high ⊢
    omega
  | inr same =>
    rw [same]
    exact Nat.add_le_add_right (roundHalfEven_mono h _) _

end Rounding

section Differences

theorem infinityRank_lt : infinityRank < signBit := by decide

theorem place_ofRank {rank : Nat} (h : rank < signBit) : (ofRank false rank).place = rank := by
  rw [place_of_not_isNegative (isNegative_ofRank false h), rank_ofRank false h]

theorem rank_neg (x : Binary64) : x.neg.rank = x.rank := rank_ofRank _ x.rank_lt

theorem isNegative_neg (x : Binary64) : x.neg.isNegative = !x.isNegative :=
  isNegative_ofRank _ x.rank_lt

theorem units_neg (x : Binary64) : x.neg.units = -x.units := by
  simp only [units, magnitude, rank_neg, isNegative_neg]
  cases x.isNegative <;> simp

theorem not_isInfinite_of_isFinite {x : Binary64} (h : x.isFinite = true) :
    x.isNaN = false ∧ x.isInfinite = false := by
  simp only [isFinite, isNaN, isInfinite, decide_eq_true_eq, decide_eq_false_iff_not,
    beq_eq_false_iff_ne] at *
  omega

theorem isInfinite_of_not_isFinite {x : Binary64} (number : x.isNaN = false)
    (h : x.isFinite = false) : x.rank = infinityRank := by
  simp only [isFinite, isNaN, decide_eq_false_iff_not] at *
  omega

variable {x y : Binary64}

theorem sub_of_isFinite (le : y.place ≤ x.place) (hx : x.isFinite = true) (hy : y.isFinite = true) :
    x.sub y = ofRank false (rankOfRatio (x.units - y.units).toNat 1) := by
  have numbers := not_isInfinite_of_isFinite hx
  have numbers' := not_isInfinite_of_isFinite hy
  have signs : (x.isNegative && y.neg.isNegative) = false := by
    rw [isNegative_neg]
    cases negative : x.isNegative with
    | false => rfl
    | true =>
      have below : y.place < 0 := Int.lt_of_le_of_lt le (isNegative_iff_place.mp negative)
      rw [isNegative_iff_place.mpr below]
      rfl
  have nonneg : y.units ≤ x.units := units_mono le
  have sum : x.units + y.neg.units = x.units - y.units := by
    rw [units_neg]
    omega
  have abs : (x.units - y.units).natAbs = (x.units - y.units).toNat := by omega
  have sign : decide (x.units - y.units < 0) = false := by
    simp only [decide_eq_false_iff_not]
    omega
  rw [isNaN, isInfinite, ← rank_neg] at numbers'
  rw [sub, add, numbers.1, numbers.2, isNaN, isInfinite, numbers'.1, numbers'.2, signs]
  simp only [Bool.or_false, Bool.false_eq_true, if_false]
  rw [ofUnits, ofRatio, sum, sign, abs]

theorem eq_infinity {negative : Bool} (sign : x.isNegative = negative) (rank : x.rank = infinityRank) :
    x = infinity negative := by
  apply place_injective
  rw [place, place, infinity, isNegative_ofRank _ infinityRank_lt, rank_ofRank _ infinityRank_lt, sign,
    rank]

theorem not_isFinite_of_rank (rank : x.rank = infinityRank) :
    x.isNaN = false ∧ x.isInfinite = true := by
  rw [isNaN, isInfinite, rank]
  decide

theorem sub_of_infinite_right (le : y.place ≤ x.place) (hx : x.isFinite = true)
    (hy : y.rank = infinityRank) : x.sub y = infinity false := by
  have below : y.isNegative = true := by
    cases sign : y.isNegative with
    | true => rfl
    | false =>
      rw [place_of_not_isNegative sign] at le
      have within := isFinite_iff_place.mp hx
      omega
  have flipped : y.neg = infinity false := by rw [neg, below, hy, infinity]; rfl
  have numbers := not_isInfinite_of_isFinite hx
  have numbers' := not_isFinite_of_rank ((rank_neg y).trans hy)
  rw [sub, add, numbers.1, numbers.2, numbers'.1, numbers'.2]
  exact flipped

theorem sub_of_infinite_left (le : y.place ≤ x.place) (hx : x.rank = infinityRank)
    (hy : y.isFinite = true) : x.sub y = infinity false := by
  have above : x.isNegative = false := by
    cases sign : x.isNegative with
    | false => rfl
    | true =>
      rw [place_of_isNegative sign] at le
      have within := isFinite_iff_place.mp hy
      omega
  have numbers := not_isFinite_of_rank hx
  have numbers' := not_isInfinite_of_isFinite hy
  rw [isNaN, isInfinite, ← rank_neg] at numbers'
  rw [sub, add, numbers.1, numbers.2, isNaN, isInfinite, numbers'.1, numbers'.2]
  exact eq_infinity above hx

theorem place_sub (le : y.place ≤ x.place) (hx : x.isNaN = false) (hy : y.isNaN = false)
    (one : x.isFinite = true ∨ y.isFinite = true) : (x.sub y).place =
      if x.isFinite ∧ y.isFinite then rankOfRatio (x.units - y.units).toNat 1 else infinityRank := by
  have small : rankOfRatio (x.units - y.units).toNat 1 < signBit :=
    Nat.lt_of_le_of_lt (rankOfRatio_le _ _) infinityRank_lt
  cases hx' : x.isFinite with
  | true =>
    cases hy' : y.isFinite with
    | true => rw [sub_of_isFinite le hx' hy', place_ofRank small, if_pos ⟨rfl, rfl⟩]
    | false =>
      rw [sub_of_infinite_right le hx' (isInfinite_of_not_isFinite hy hy'), infinity,
        place_ofRank infinityRank_lt, if_neg fun both => Bool.false_ne_true both.2]
  | false =>
    have hy' : y.isFinite = true := one.resolve_left (by simp [hx'])
    rw [sub_of_infinite_left le (isInfinite_of_not_isFinite hx hx') hy', infinity,
      place_ofRank infinityRank_lt, if_neg fun both => Bool.false_ne_true both.1]

theorem place_sub_mono {x' y' : Binary64} (below : y'.place ≤ y.place) (le : y.place ≤ x.place)
    (above : x.place ≤ x'.place) (hx : x'.isNaN = false) (hy : y'.isNaN = false)
    (inner : x.isFinite = true ∨ y.isFinite = true)
    (outer : x'.isFinite = true ∨ y'.isFinite = true) :
    (x.sub y).place ≤ (x'.sub y').place := by
  have upper := isNaN_iff_place.mp hx
  have lower := isNaN_iff_place.mp hy
  have number : x.isNaN = false := isNaN_iff_place.mpr ⟨by omega, by omega⟩
  have number' : y.isNaN = false := isNaN_iff_place.mpr ⟨by omega, by omega⟩
  rw [place_sub le number number' inner, place_sub (by omega) hx hy outer]
  by_cases finite : x'.isFinite = true ∧ y'.isFinite = true
  · have within := isFinite_iff_place.mp finite.1
    have within' := isFinite_iff_place.mp finite.2
    have hx' : x.isFinite = true := isFinite_iff_place.mpr ⟨by omega, by omega⟩
    have hy' : y.isFinite = true := isFinite_iff_place.mpr ⟨by omega, by omega⟩
    rw [if_pos finite, if_pos ⟨hx', hy'⟩]
    have units := units_mono below
    have units' := units_mono above
    exact Int.ofNat_le.mpr (rankOfRatio_mono (by omega))
  · rw [if_neg finite]
    have capped := rankOfRatio_le (x.units - y.units).toNat 1
    split <;> omega

def distance (x y : Binary64) : Binary64 := if y.place ≤ x.place then x.sub y else y.sub x

theorem distance_of_le (le : y.place ≤ x.place) : x.distance y = x.sub y := if_pos le

theorem distance_of_lt (lt : x.place < y.place) : x.distance y = y.sub x := if_neg (by omega)

theorem place_distance (hx : x.isFinite = true) (hy : y.isNaN = false) :
    0 ≤ (x.distance y).place ∧ (x.distance y).place ≤ infinityRank := by
  have number := (not_isInfinite_of_isFinite hx).1
  have ranks : ∀ n : Nat, rankOfRatio n 1 ≤ infinityRank := fun n => rankOfRatio_le n 1
  by_cases le : y.place ≤ x.place
  · rw [distance_of_le le, place_sub le number hy (Or.inl hx)]
    have capped := ranks (x.units - y.units).toNat
    split <;> omega
  · rw [distance_of_lt (by omega), place_sub (by omega) hy number (Or.inr hx)]
    have capped := ranks (y.units - x.units).toNat
    split <;> omega

/-- The first is at least as near to `x` as the second. -/
def AsNear (x : Binary64) (y z : Binary64) : Prop := (x.distance y).place ≤ (x.distance z).place

theorem asNear_of_le {z : Binary64} (hx : x.isFinite = true) (hz : z.isNaN = false)
    (far : z.place ≤ y.place) (le : y.place ≤ x.place) : x.AsNear y z := by
  rw [AsNear, distance_of_le le, distance_of_le (Int.le_trans far le)]
  exact place_sub_mono far le (Int.le_refl _) (not_isInfinite_of_isFinite hx).1 hz (Or.inl hx) (Or.inl hx)

theorem asNear_of_lt {z : Binary64} (hx : x.isFinite = true) (hz : z.isNaN = false)
    (lt : x.place < y.place) (far : y.place ≤ z.place) : x.AsNear y z := by
  rw [AsNear, distance_of_lt lt, distance_of_lt (Int.lt_of_lt_of_le lt far)]
  exact place_sub_mono (Int.le_refl _) (Int.le_of_lt lt) far hz (not_isInfinite_of_isFinite hx).1
    (Or.inr hx) (Or.inr hx)

end Differences

end Binary64

end Reprise
