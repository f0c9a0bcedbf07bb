import Reprise.Wire.Basic

/-!
Numbers, texts and lists are read back from the bytes they were written as, whatever follows them.
-/
set_option autoImplicit false

namespace Reprise

namespace Wire

variable {α : Type}

/-- Reading takes off exactly what writing put in front. -/
def ReadsBack (put : Writer α) (get : Reader α) (a : α) : Prop :=
  ∀ rest, get (put a rest) = some (a, rest)

theorem getNat_putNat {count n : Nat} (h : n < Nat.pow 256 count) :
    ReadsBack (putNat count) (getNat count) n := by
  induction count generalizing n with
  | zero =>
    intro rest
    have zero : n = 0 := Nat.lt_one_iff.mp h
    rw [zero, putNat, getNat]
  | succ count ih =>
    intro rest
    have below : n < Nat.pow 256 count * 256 := h
    have high : n / 256 < Nat.pow 256 count := Nat.div_lt_of_lt_mul (by omega)
    have low : (UInt8.ofNat n).toNat = n % 256 := by simp
    rw [putNat, getNat, ih high rest]
    simp only [low]
    rw [Nat.mod_add_div]

theorem getTag_putTag {n : Nat} (h : n < 256) (rest : Bytes) :
    getTag (putTag n rest) = some (n, rest) := by
  have small : n < Nat.pow 256 4 := Nat.lt_trans h (by decide)
  exact getNat_putNat small rest

theorem getLength_putLength {n : Nat} (h : lengthFits n = true) (rest : Bytes) :
    getLength (putLength n rest) = some (n, rest) := by
  have small : n < 1 <<< 64 := of_decide_eq_true h
  exact getNat_putNat (by simpa [Nat.one_shiftLeft] using small) rest

theorem getWord_putWord (w : UInt32) : ReadsBack putWord getWord w := by
  intro rest
  rw [putWord, getWord, getNat_putNat (by simpa using w.toNat_lt)]
  simp

theorem getLong_putLong (w : UInt64) : ReadsBack putLong getLong w := by
  intro rest
  rw [putLong, getLong, getNat_putNat (by simpa using w.toNat_lt)]
  simp

theorem getInt_putInt (n : Int64) : ReadsBack putInt getInt n := by
  intro rest
  rw [putInt, getInt, getLong_putLong]
  simp

theorem getBytes_append (taken rest : Bytes) :
    getBytes taken.length (taken ++ rest) = some (taken, rest) := by
  induction taken with
  | nil => rw [List.length_nil, List.nil_append, getBytes]
  | cons b taken ih => rw [List.length_cons, List.cons_append, getBytes, ih]

theorem toList_loop (bytes : ByteArray) (i : Nat) (seen : List UInt8) :
    ByteArray.toList.loop bytes i seen = seen.reverse ++ bytes.data.toList.drop i := by
  fun_induction ByteArray.toList.loop bytes i seen with
  | case1 i seen h ih =>
    have inside : i < bytes.data.toList.length := by simpa using h
    rw [ih, List.drop_eq_getElem_cons inside]
    have at_i : bytes.get! i = bytes.data.toList[i] := by
      rw [ByteArray.get!, Array.getElem_toList]
      exact getElem!_pos bytes.data i (by simpa using h)
    simp [at_i]
  | case2 i seen h =>
    have outside : bytes.data.toList.length ≤ i := by simpa using h
    rw [List.drop_eq_nil_of_le outside, List.append_nil]

theorem toList_eq_data (bytes : ByteArray) : bytes.toList = bytes.data.toList := by
  rw [ByteArray.toList, toList_loop]
  rfl

theorem fromUTF8?_toUTF8 (s : String) : String.fromUTF8? ⟨s.toUTF8.toList.toArray⟩ = some s := by
  rw [toList_eq_data, Array.toArray_toList, String.fromUTF8?]
  exact dif_pos s.isValidUTF8

theorem getText_putText {s : String} (h : lengthFits s.utf8ByteSize = true) :
    ReadsBack putText getText s := by
  intro rest
  have bytes : s.utf8ByteSize = s.toUTF8.toList.length := by
    rw [toList_eq_data]
    rfl
  rw [putText, getText, getLength_putLength h]
  simp only
  rw [bytes, getBytes_append]
  simp only
  rw [fromUTF8?_toUTF8]
  rfl

theorem getItems_eq_nil {get : Reader α} {n : Nat} {bytes rest : Bytes} :
    getItems get n bytes = some ([], rest) ↔ n = 0 ∧ bytes = rest := by
  cases n with
  | zero => simp [getItems]
  | succ n =>
    rw [getItems]
    split
    · simp
    · split <;> simp

theorem getItems_eq_cons {get : Reader α} {n : Nat} {bytes rest : Bytes} {item : α} {others : List α} :
    getItems get n bytes = some (item :: others, rest) ↔
      ∃ m after, n = m + 1 ∧ get bytes = some (item, after) ∧
        getItems get m after = some (others, rest) := by
  cases n with
  | zero => simp [getItems]
  | succ n =>
    rw [getItems]
    constructor
    · intro read
      split at read
      · cases read
      · rename_i first after got
        split at read
        · cases read
        · rename_i later left got_later
          cases read
          exact ⟨n, after, rfl, got, got_later⟩
    · rintro ⟨m, after, length, got, got_later⟩
      cases length
      simp only [got, got_later]

theorem getList_eq_some {get : Reader α} {bytes rest : Bytes} {items : List α} :
    getList get bytes = some (items, rest) ↔
      ∃ n after, getLength bytes = some (n, after) ∧ getItems get n after = some (items, rest) := by
  rw [getList]
  constructor
  · intro read
    split at read
    · cases read
    · rename_i n after length
      exact ⟨n, after, length, read⟩
  · rintro ⟨n, after, length, read⟩
    simp only [length, read]

theorem getItems_putItems {put : Writer α} {get : Reader α} {items : List α}
    (h : ∀ a ∈ items, ReadsBack put get a) (rest : Bytes) :
    getItems get items.length (putItems put items rest) = some (items, rest) := by
  induction items with
  | nil => rfl
  | cons a items ih =>
    have first := h a List.mem_cons_self (putItems put items rest)
    have others := ih fun b hb => h b (List.mem_cons_of_mem _ hb)
    exact getItems_eq_cons.mpr ⟨items.length, putItems put items rest, rfl, first, others⟩

theorem getList_putList {put : Writer α} {get : Reader α} {items : List α}
    (fits : lengthFits items.length = true) (h : ∀ a ∈ items, ReadsBack put get a) :
    ReadsBack (putList put) (getList get) items := by
  intro rest
  exact getList_eq_some.mpr ⟨_, _, getLength_putLength fits _, getItems_putItems h rest⟩

end Wire

end Reprise
