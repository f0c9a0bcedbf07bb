import Reprise.Binary64.Basic

/-!
The order of doubles: each has a place of its own, and the finite ones stand in the order of their
values.
-/
set_option autoImplicit false

namespace Reprise

theorem shiftLeft_mono {a b m n : Nat} (h : a ≤ b) (shift : m ≤ n) : a <<< m ≤ b <<< n := by
  rw [Nat.shiftLeft_eq, Nat.shiftLeft_eq]
  exact Nat.mul_le_mul h (Nat.pow_le_pow_right (by decide) shift)

namespace Binary64

theorem signBit_eq : signBit = 9223372036854775808 := by decide

theorem rank_lt (x : Binary64) : x.rank < signBit := Nat.mod_lt _ (by decide)

theorem toNat_bits (x : Binary64) :
    x.bits.toNat = if x.isNegative then signBit + x.rank else x.rank := by
  have below : x.bits.toNat < 18446744073709551616 := x.bits.toNat_lt
  simp only [isNegative, rank, decide_eq_true_eq]
  rw [signBit_eq]
  split <;> omega

theorem toNat_ofRank (negative : Bool) {rank : Nat} (h : rank < signBit) :
    (ofRank negative rank).bits.toNat = if negative then signBit + rank else rank := by
  rw [signBit_eq] at h
  rw [ofRank, signBit_eq]
  cases negative <;> simp <;> omega

@[simp] theorem rank_ofRank (negative : Bool) {rank : Nat} (h : rank < signBit) :
    (ofRank negative rank).rank = rank := by
  rw [Binary64.rank, toNat_ofRank negative h]
  cases negative with
  | false => exact Nat.mod_eq_of_lt h
  | true => exact (Nat.add_mod_left _ _).trans (Nat.mod_eq_of_lt h)

@[simp] theorem isNegative_ofRank (negative : Bool) {rank : Nat} (h : rank < signBit) :
    (ofRank negative rank).isNegative = negative := by
  rw [isNegative, toNat_ofRank negative h]
  cases negative with
  | false => simpa using h
  | true => simp

theorem place_of_isNegative {x : Binary64} (h : x.isNegative = true) :
    x.place = -(x.rank : Int) - 1 := if_pos h

theorem place_of_not_isNegative {x : Binary64} (h : x.isNegative = false) : x.place = x.rank :=
  if_neg (by simp [h])

theorem isNegative_iff_place {x : Binary64} : x.isNegative = true ↔ x.place < 0 := by
  cases sign : x.isNegative with
  | false => rw [place_of_not_isNegative sign]; simp
  | true => rw [place_of_isNegative sign]; simp; omega

theorem place_injective {x y : Binary64} (h : x.place = y.place) : x = y := by
  have sign : x.isNegative = y.isNegative := by
    rw [Bool.eq_iff_iff, isNegative_iff_place, isNegative_iff_place, h]
  have rank : x.rank = y.rank := by
    cases negative : y.isNegative with
    | false =>
      rw [place_of_not_isNegative negative, place_of_not_isNegative (sign.trans negative)] at h
      exact Int.ofNat.inj h
    | true =>
      rw [place_of_isNegative negative, place_of_isNegative (sign.trans negative)] at h
      omega
  have bits : x.bits.toNat = y.bits.toNat := by rw [toNat_bits, toNat_bits, sign, rank]
  cases x; cases y
  exact congrArg mk (UInt64.toNat_inj.mp bits)

theorem compare_eq_lt {x y : Binary64} : compare x y = .lt ↔ x.place < y.place :=
  Int.compare_eq_lt

theorem compare_eq_gt {x y : Binary64} : compare x y = .gt ↔ y.place < x.place :=
  Int.compare_eq_gt

theorem compare_eq_eq {x y : Binary64} : compare x y = .eq ↔ x = y :=
  Int.compare_eq_eq.trans ⟨place_injective, congrArg place⟩

theorem isFinite_iff_place {x : Binary64} : x.isFinite = true ↔
    -(infinityRank : Int) - 1 < x.place ∧ x.place < infinityRank := by
  rw [isFinite, decide_eq_true_eq]
  cases sign : x.isNegative with
  | false => rw [place_of_not_isNegative sign]; omega
  | true => rw [place_of_isNegative sign]; omega

theorem isNaN_iff_place {x : Binary64} : x.isNaN = false ↔
    -(infinityRank : Int) - 1 ≤ x.place ∧ x.place ≤ infinityRank := by
  rw [isNaN, decide_eq_false_iff_not]
  cases sign : x.isNegative with
  | false => rw [place_of_not_isNegative sign]; omega
  | true => rw [place_of_isNegative sign]; omega

section Values

theorem unitsOfRank_lt (rank : Nat) : unitsOfRank rank < (1 <<< 52) <<< (rank >>> 52) := by
  have fraction : rank % 1 <<< 52 < 1 <<< 52 := Nat.mod_lt _ (by decide)
  simp only [unitsOfRank]
  generalize 1 <<< 52 = unit at fraction ⊢
  generalize rank >>> 52 = exponent
  cases exponent with
  | zero => simpa using fraction
  | succ e =>
    rw [if_neg (Nat.succ_ne_zero e), Nat.add_sub_cancel, Nat.shiftLeft_succ_inside,
      Nat.shiftLeft_eq, Nat.shiftLeft_eq]
    have numerator : unit + rank % unit < 2 * unit := by omega
    exact Nat.mul_lt_mul_of_pos_right numerator (Nat.two_pow_pos e)

theorem le_unitsOfRank {rank : Nat} (normal : rank >>> 52 ≠ 0) :
    (1 <<< 52) <<< (rank >>> 52 - 1) ≤ unitsOfRank rank := by
  simp only [unitsOfRank, if_neg normal]
  exact shiftLeft_mono (Nat.le_add_right _ _) (Nat.le_refl _)

/-- Within one exponent the fractions count, beyond it the exponents do. -/
theorem unitsOfRank_mono {m n : Nat} (h : m ≤ n) : unitsOfRank m ≤ unitsOfRank n := by
  have parts : ∀ k : Nat, k = (1 <<< 52) * (k >>> 52) + k % 1 <<< 52 := fun k => by
    rw [Nat.shiftRight_eq_div_pow]
    exact (Nat.div_add_mod k _).symm
  have exponents : m >>> 52 ≤ n >>> 52 := by
    rw [Nat.shiftRight_eq_div_pow, Nat.shiftRight_eq_div_pow]
    exact Nat.div_le_div_right h
  cases Nat.lt_or_eq_of_le exponents with
  | inl lt =>
    calc unitsOfRank m
        ≤ (1 <<< 52) <<< (m >>> 52) := Nat.le_of_lt (unitsOfRank_lt m)
      _ ≤ (1 <<< 52) <<< (n >>> 52 - 1) := shiftLeft_mono (Nat.le_refl _) (by omega)
      _ ≤ unitsOfRank n := le_unitsOfRank (by omega)
  | inr same =>
    have fractions : m % 1 <<< 52 ≤ n % 1 <<< 52 := by
      have hm := parts m
      have hn := parts n
      rw [same] at hm
      omega
    simp only [unitsOfRank, same]
    split
    · exact fractions
    · exact shiftLeft_mono (Nat.add_le_add_left fractions _) (Nat.le_refl _)

theorem units_of_isNegative {x : Binary64} (h : x.isNegative = true) :
    x.units = -(unitsOfRank x.rank : Int) := if_pos h

theorem units_of_not_isNegative {x : Binary64} (h : x.isNegative = false) :
    x.units = unitsOfRank x.rank := if_neg (by simp [h])

theorem units_mono {x y : Binary64} (h : x.place ≤ y.place) : x.units ≤ y.units := by
  cases negative : y.isNegative with
  | true =>
    have negative' : x.isNegative = true :=
      isNegative_iff_place.mpr (Int.lt_of_le_of_lt h (isNegative_iff_place.mp negative))
    rw [place_of_isNegative negative, place_of_isNegative negative'] at h
    have ranks : unitsOfRank y.rank ≤ unitsOfRank x.rank := unitsOfRank_mono (by omega)
    rw [units_of_isNegative negative, units_of_isNegative negative']
    omega
  | false =>
    rw [place_of_not_isNegative negative] at h
    rw [units_of_not_isNegative negative]
    cases negative' : x.isNegative with
    | true =>
      rw [units_of_isNegative negative']
      omega
    | false =>
      rw [place_of_not_isNegative negative'] at h
      have ranks : unitsOfRank x.rank ≤ unitsOfRank y.rank := unitsOfRank_mono (by omega)
      rw [units_of_not_isNegative negative']
      omega

end Values

end Binary64

end Reprise
