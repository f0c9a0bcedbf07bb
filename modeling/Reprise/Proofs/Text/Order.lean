import Reprise.Proofs.Ordered.Sorted
import Reprise.Table.Basic

/-!
The order of texts. Texts of one beginning stand together, from that beginning on, and numbers padded
to one length stand in the order of their values.
-/
set_option autoImplicit false

namespace Reprise

namespace Text

theorem compare_eq_lt {a b : String} : compare a b = .lt ↔ a.toList < b.toList :=
  compareOfLessAndEq_eq_lt.trans String.lt_iff

theorem compare_append_left (stem : String) {a b : String} (h : a.toList < b.toList) :
    compare (stem ++ a) (stem ++ b) = .lt := by
  rw [compare_eq_lt, String.toList_append, String.toList_append]
  exact List.append_left_lt h

section Beginnings

theorem isPrefix_of_between {p a b : List Char} (low : ¬ a < p) (high : a < b) (h : p <+: b) :
    p <+: a := by
  induction p generalizing a b with
  | nil => exact List.nil_prefix
  | cons x p ih =>
    obtain ⟨b, rfl, rest⟩ := List.cons_prefix_iff.mp h
    cases a with
    | nil => exact absurd (List.nil_lt_cons x p) low
    | cons y a =>
      rw [List.cons_lt_cons_iff] at low high
      have same : y = x := (high.resolve_left fun lt => low (Or.inl lt)).1
      have high' : a < b := (high.resolve_left fun lt => low (Or.inl lt)).2
      have low' : ¬ a < p := fun lt => low (Or.inr ⟨same, lt⟩)
      exact same ▸ List.cons_prefix_cons.mpr ⟨rfl, ih low' high' rest⟩

theorem not_lt_of_isPrefix {p a : List Char} (h : p <+: a) : ¬ a < p := by
  induction p generalizing a with
  | nil => exact List.not_lt_nil a
  | cons x p ih =>
    obtain ⟨a, rfl, rest⟩ := List.cons_prefix_iff.mp h
    rw [List.cons_lt_cons_self]
    exact ih rest

variable {stem a b : String}

theorem begins_iff : Pattern.begins stem a = true ↔ stem.toList <+: a.toList :=
  List.isPrefixOf_iff_prefix

theorem begins_append (stem rest : String) : Pattern.begins stem (stem ++ rest) = true := by
  rw [begins_iff, String.toList_append]
  exact List.prefix_append _ _

theorem not_lt_of_begins (h : Pattern.begins stem a = true) : compare a stem ≠ .lt := by
  rw [Ne, compare_eq_lt]
  exact not_lt_of_isPrefix (begins_iff.mp h)

theorem begins_of_between (low : compare a stem ≠ .lt) (high : compare a b = .lt)
    (h : Pattern.begins stem b = true) : Pattern.begins stem a = true := by
  rw [Ne, compare_eq_lt] at low
  rw [compare_eq_lt] at high
  exact begins_iff.mpr (isPrefix_of_between low high (begins_iff.mp h))

theorem mem_takeWhile_begins {keys : List String} (h : Ascending keys)
    (low : ∀ key ∈ keys, compare key stem ≠ .lt) :
    a ∈ keys.takeWhile (Pattern.begins stem) ↔ a ∈ keys ∧ Pattern.begins stem a = true := by
  induction keys with
  | nil => simp
  | cons key rest ih =>
    obtain ⟨above, ordered⟩ := List.pairwise_cons.mp h
    have later := ih ordered fun k mem => low k (List.mem_cons_of_mem _ mem)
    rw [List.takeWhile_cons]
    split
    · rename_i first
      rw [List.mem_cons, List.mem_cons, later, or_and_right]
      have both : a = key ↔ a = key ∧ Pattern.begins stem a = true :=
        ⟨fun same => ⟨same, same ▸ first⟩, And.left⟩
      rw [← both]
    · rename_i other
      refine iff_of_false List.not_mem_nil fun ⟨mem, begins⟩ => other ?_
      cases List.mem_cons.mp mem with
      | inl same => exact same ▸ begins
      | inr mem => exact begins_of_between (low key List.mem_cons_self) (above a mem) begins

theorem mem_scan_iff {keys : List String} (h : Ascending keys) :
    a ∈ (keys.dropWhile fun key => compare key stem == .lt).takeWhile (Pattern.begins stem) ↔
      a ∈ keys ∧ Pattern.begins stem a = true := by
  induction keys with
  | nil => simp
  | cons key rest ih =>
    obtain ⟨above, ordered⟩ := List.pairwise_cons.mp h
    rw [List.dropWhile_cons]
    split
    · rename_i below
      have apart : ¬ (a = key ∧ Pattern.begins stem a = true) := by
        rintro ⟨rfl, begins⟩
        exact not_lt_of_begins begins (eq_of_beq below)
      rw [ih ordered, List.mem_cons, or_and_right, or_iff_right apart]
    · rename_i start
      have low : ∀ k ∈ key :: rest, compare k stem ≠ .lt := by
        intro k mem lt
        cases List.mem_cons.mp mem with
        | inl same => exact start (beq_iff_eq.mpr (same ▸ lt))
        | inr mem => exact start (beq_iff_eq.mpr (Std.TransCmp.lt_trans (above k mem) lt))
      exact mem_takeWhile_begins h low

end Beginnings

section Padding

theorem append_lt_append {a b : List Char} (x y : List Char) (same : a.length = b.length) (h : a < b) :
    a ++ x < b ++ y := by
  induction a generalizing b with
  | nil =>
    rw [List.eq_nil_of_length_eq_zero same.symm] at h
    exact absurd h (List.not_lt_nil [])
  | cons c a ih =>
    cases b with
    | nil => exact absurd h (List.not_lt_nil _)
    | cons d b =>
      rw [List.cons_append, List.cons_append, List.cons_lt_cons_iff]
      refine (List.cons_lt_cons_iff.mp h).imp id fun ⟨eq, lt⟩ => ?_
      exact ⟨eq, ih (Nat.succ.inj same) lt⟩

def padded (k n : Nat) : List Char :=
  List.replicate (k - (Nat.toDigits 10 n).length) '0' ++ Nat.toDigits 10 n

theorem padded_one {n : Nat} (h : n < 10) : padded 1 n = [n.digitChar] := by
  rw [padded, Nat.toDigits_of_lt_base h]
  rfl

theorem padded_succ {k : Nat} (pos : 0 < k) (n : Nat) :
    padded (k + 1) n = padded k (n / 10) ++ [(n % 10).digitChar] := by
  rw [padded, padded]
  by_cases small : n < 10
  · have zeros : List.replicate (k - 1) '0' ++ ['0'] = List.replicate k '0' := by
      rw [← List.replicate_succ', Nat.sub_add_cancel pos]
    rw [Nat.div_eq_of_lt small, Nat.mod_eq_of_lt small, Nat.toDigits_zero,
      Nat.toDigits_of_lt_base small]
    exact congrArg (· ++ [n.digitChar]) zeros.symm
  · rw [Nat.toDigits_of_base_le (n := n) (by decide) (Nat.le_of_not_lt small), List.length_append,
      List.length_singleton, Nat.add_sub_add_right, List.append_assoc]

theorem length_padded {k n : Nat} (pos : 0 < k) (h : n < Nat.pow 10 k) : (padded k n).length = k := by
  have fits := (Nat.length_toDigits_le_iff (by decide) pos).mpr h
  rw [padded, List.length_append, List.length_replicate, Nat.sub_add_cancel fits]

theorem digitChar_lt {m n : Nat} (lt : m < n) (h : n < 10) : m.digitChar < n.digitChar := by
  have digits : m.digitChar.toNat < n.digitChar.toNat := by
    rw [Nat.toNat_digitChar_of_lt_ten h, Nat.toNat_digitChar_of_lt_ten (Nat.lt_trans lt h)]
    exact Nat.add_lt_add_left lt _
  exact digits

theorem padded_lt {k m n : Nat} (pos : 0 < k) (lt : m < n) (h : n < Nat.pow 10 k) :
    padded k m < padded k n := by
  induction k generalizing m n with
  | zero => exact absurd pos (Nat.lt_irrefl 0)
  | succ k ih =>
    cases Nat.eq_zero_or_pos k with
    | inl one =>
      subst one
      have small : n < 10 := h
      rw [padded_one small, padded_one (Nat.lt_trans lt small), List.cons_lt_cons_iff]
      exact Or.inl (digitChar_lt lt small)
    | inr more =>
      have high : n / 10 < Nat.pow 10 k := Nat.div_lt_of_lt_mul (Nat.mul_comm _ 10 ▸ h)
      rw [padded_succ more, padded_succ more]
      cases Nat.lt_or_eq_of_le (Nat.div_le_div_right (c := 10) (Nat.le_of_lt lt)) with
      | inl less =>
        have lengths : (padded k (m / 10)).length = (padded k (n / 10)).length := by
          rw [length_padded more high, length_padded more (Nat.lt_trans less high)]
        exact append_lt_append _ _ lengths (ih more less high)
      | inr same =>
        rw [same]
        have last : m % 10 < n % 10 := by omega
        refine List.append_left_lt (List.cons_lt_cons_iff.mpr (Or.inl ?_))
        exact digitChar_lt last (Nat.mod_lt n (by decide))

end Padding

end Text

end Reprise
