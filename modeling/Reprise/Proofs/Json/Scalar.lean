import Reprise.Json.Print
import Reprise.Json.Read
import Reprise.Proofs.Text.Token

/-!
Texts and whole numbers are read back from what they are written as: a text whatever characters it
has, a number if it has 64 bits.
-/
set_option autoImplicit false

namespace Reprise

namespace Json

open Text

section Quoted

theorem unit?_control : ∀ n < 32,
    unit? '0' '0' (hexDigit (n / 16)) (hexDigit (n % 16)) = some n := by
  decide

theorem readQuoted_plain {c : Char} (quote : c ≠ '"') (slash : c ≠ '\\') (printable : ¬ c.toNat < 32)
    (rest : List Char) :
    readQuoted (c :: rest) = (readQuoted rest).map fun (s, rest) => (c :: s, rest) := by
  rw [readQuoted.eq_def]
  split
  · simp_all
  · simp_all
  · simp_all
  · simp_all
  · rename_i same
    cases same
    rw [if_neg (not_or.mpr ⟨printable, slash⟩)]

theorem readQuoted_escape (c : Char) (rest : List Char) :
    readQuoted (escape c ++ rest) = (readQuoted rest).map fun (s, rest) => (c :: s, rest) := by
  rw [escape.eq_def]
  split
  · simp [readQuoted, unescape?]
  · simp [readQuoted, unescape?]
  · simp [readQuoted, unescape?]
  · simp [readQuoted, unescape?]
  · simp [readQuoted, unescape?]
  · simp [readQuoted, unescape?]
  · simp [readQuoted, unescape?]
  · split
    · rename_i control
      have value := unit?_control c.toNat control
      have low : isLowHalf c.toNat = false := by simp [isLowHalf]; omega
      have high : isHighHalf c.toNat = false := by simp [isHighHalf]; omega
      simp only [List.cons_append, List.nil_append, readQuoted, value, low, high, Char.ofNat_toNat]
      rfl
    · rename_i quote slash _ _ _ _ _ printable
      exact readQuoted_plain quote slash printable rest

theorem readQuoted_flatMap (s rest : List Char) :
    readQuoted (s.flatMap escape ++ '"' :: rest) = some (s, rest) := by
  induction s with
  | nil => simp [readQuoted]
  | cons c s ih =>
    rw [List.flatMap_cons, List.append_assoc, readQuoted_escape, ih]
    rfl

theorem readText_putQuoted (s : String) (rest : List Char) :
    readScalar (putQuoted s rest) = some (.text s, rest) := by
  rw [putQuoted, readScalar, readText, readQuoted_flatMap]
  simp only [String.ofList_toList]

end Quoted

section Whole

theorem digitChar_ne_zero : ∀ n < 10, n ≠ 0 → n.digitChar ≠ '0' := by decide

theorem eq_zero_of_head {n : Nat} (h : (Nat.toDigits 10 n).head? = some '0') : n = 0 := by
  induction n using Nat.strongRecOn with
  | ind n ih =>
    by_cases small : n < 10
    · rw [Nat.toDigits_of_lt_base small] at h
      exact Decidable.byContradiction fun other => digitChar_ne_zero n small other (Option.some.inj h)
    · rw [Nat.toDigits_of_base_le (by decide) (by omega), List.head?_append,
        Option.or_of_isSome (by simp [Nat.toDigits_ne_nil])] at h
      have zero := ih (n / 10) (by omega) h
      omega

theorem digitsValue_toDigits (n : Nat) : digitsValue (Nat.toDigits 10 n) = n := by
  have same : ∀ digits, digitsValue digits = Nat.ofDigitChars 10 digits 0 := by
    intro digits
    simp only [digitsValue, Nat.ofDigitChars_eq_foldl, Nat.mul_comm]
    rfl
  rw [same, Nat.ofDigitChars_toDigits (by decide) (by decide)]

/-- What may come after a number: nothing that would go on with it. -/
def EndsNumber (rest : List Char) : Prop :=
  ∀ c ∈ rest.head?, isDigit c = false ∧ c ≠ '.' ∧ c ≠ 'e' ∧ c ≠ 'E'

theorem EndsNumber.takeWhile {rest : List Char} (h : EndsNumber rest) :
    rest.takeWhile isDigit = [] ∧ rest.dropWhile isDigit = rest := by
  cases rest with
  | nil => exact ⟨rfl, rfl⟩
  | cons c rest =>
    have other := (h c rfl).1
    exact ⟨List.takeWhile_cons_of_neg (by simp [other]), List.dropWhile_cons_of_neg (by simp [other])⟩

theorem readDigits_toDigits (n : Nat) {rest : List Char} (ends : EndsNumber rest) :
    readDigits (Nat.toDigits 10 n ++ rest) = some (Nat.toDigits 10 n, rest) := by
  have digits : ∀ c ∈ Nat.toDigits 10 n, isDigit c = true :=
    fun c mem => Nat.isDigit_of_mem_toDigits (by decide) (by decide) mem
  rw [readDigits, List.takeWhile_append_of_pos digits, List.dropWhile_append_of_pos digits,
    ends.takeWhile.1, ends.takeWhile.2, List.append_nil]
  cases written : Nat.toDigits 10 n with
  | nil => exact absurd written Nat.toDigits_ne_nil
  | cons c rest => rfl

theorem EndsNumber.readFraction {rest : List Char} (h : EndsNumber rest) :
    readFraction rest = some (none, rest) := by
  cases rest with
  | nil => rfl
  | cons c rest =>
    rw [Json.readFraction.eq_def]
    split
    · rename_i same
      cases same
      exact absurd rfl (h '.' rfl).2.1
    · rfl

theorem EndsNumber.readExponent {rest : List Char} (h : EndsNumber rest) :
    readExponent rest = some (none, rest) := by
  cases rest with
  | nil => rfl
  | cons c rest =>
    have no_power := not_or.mpr (h c rfl).2.2
    rw [Json.readExponent.eq_def]
    exact if_neg no_power

theorem readUnsigned_toDigits (negative : Bool) (n : Nat) {rest : List Char} (ends : EndsNumber rest) :
    readUnsigned negative (Nat.toDigits 10 n ++ rest) =
      some ((wholeNumber negative n).getD .void, rest) := by
  have no_zeros : ¬ ((Nat.toDigits 10 n).head? = some '0' ∧ 1 < (Nat.toDigits 10 n).length) := by
    intro ⟨zero, long⟩
    rw [eq_zero_of_head zero] at long
    exact absurd long (by decide)
  rw [readUnsigned, readDigits_toDigits n ends]
  simp only [Option.bind_eq_bind, Option.bind_some, if_neg no_zeros, ends.readFraction,
    ends.readExponent, digitsValue_toDigits]

/-- The whole numbers that have 64 bits, with or without a sign. -/
def IsWord64 (n : Int) : Prop := -(1 <<< 63) ≤ n ∧ n < 1 <<< 64

theorem wholeNumber_of_word {n : Nat} (small : n < 1 <<< 64) :
    wholeNumber false n = some (.int n) := by
  rw [wholeNumber, if_neg (by decide), if_pos small]

theorem wholeNumber_of_negative {n : Nat} (pos : 0 < n) (small : n ≤ 1 <<< 63) :
    wholeNumber true n = some (.int (-n)) := by
  rw [wholeNumber, if_pos rfl, if_pos ⟨pos, small⟩]

theorem readScalar_of_head {c : Char} (head : c = '-' ∨ c.isDigit = true) (rest : List Char) :
    readScalar (c :: rest) = readNumber (c :: rest) := by
  rw [readScalar.eq_def]
  split
  · simp_all
  · simp_all
  · simp_all
  · simp_all
  · rfl

theorem readNumber_of_digit {c : Char} (digit : c.isDigit = true) (rest : List Char) :
    readNumber (c :: rest) = readUnsigned false (c :: rest) := by
  rw [readNumber.eq_def]
  split
  · simp_all
  · rfl

theorem readScalar_toDigits (n : Nat) {rest : List Char} (ends : EndsNumber rest) :
    readScalar (Nat.toDigits 10 n ++ rest) = some ((wholeNumber false n).getD .void, rest) := by
  have read := readUnsigned_toDigits false n ends
  cases written : Nat.toDigits 10 n with
  | nil => exact absurd written Nat.toDigits_ne_nil
  | cons c tail =>
    have digit : c.isDigit = true :=
      Nat.isDigit_of_mem_toDigits (by decide) (by decide) (written ▸ List.mem_cons_self)
    rw [written] at read
    rw [List.cons_append, readScalar_of_head (Or.inr digit), readNumber_of_digit digit]
    exact read

theorem readScalar_toString {n : Int} (word : IsWord64 n) {rest : List Char}
    (ends : EndsNumber rest) : readScalar ((toString n).toList ++ rest) = some (.int n, rest) := by
  obtain ⟨low, high⟩ := word
  rw [toList_toString]
  by_cases sign : 0 ≤ n
  · have small : n.toNat < 1 <<< 64 := by omega
    rw [if_pos sign, Nat.toList_repr, readScalar_toDigits _ ends, wholeNumber_of_word small,
      Int.toNat_of_nonneg sign]
    rfl
  · have pos : 0 < (-n).toNat := by omega
    have small : (-n).toNat ≤ 1 <<< 63 := by omega
    rw [if_neg sign, Nat.toList_repr, List.cons_append, readScalar_of_head (Or.inl rfl), readNumber,
      readUnsigned_toDigits true _ ends, wholeNumber_of_negative pos small,
      Int.toNat_of_nonneg (by omega), Int.neg_neg]
    rfl

end Whole

end Json

end Reprise
