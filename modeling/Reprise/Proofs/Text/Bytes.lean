import Reprise.Proofs.Text.Order
import Reprise.Proofs.Wire.Basic

/-!
Texts as bytes. The order of texts is the order of their bytes in UTF-8.
-/
set_option autoImplicit false

namespace Reprise

namespace Text

section Characters

theorem ofNat_lt_ofNat {m n : Nat} (hm : m < 256) (hn : n < 256) :
    UInt8.ofNat m < UInt8.ofNat n ↔ m < n := by
  rw [UInt8.lt_iff_toNat_lt, UInt8.toNat_ofNat_of_lt' hm, UInt8.toNat_ofNat_of_lt' hn]

theorem ofNat_inj {m n : Nat} (hm : m < 256) (hn : n < 256) :
    UInt8.ofNat m = UInt8.ofNat n ↔ m = n := by
  rw [← UInt8.toNat_inj, UInt8.toNat_ofNat_of_lt' hm, UInt8.toNat_ofNat_of_lt' hn]

theorem toNat_val_lt (c : Char) : c.val.toNat < 1114112 := by
  cases c.valid with
  | inl low => exact Nat.lt_trans low (by decide)
  | inr high => exact high.2

theorem utf8EncodeChar_append_lt {c d : Char} (lt : c < d) (s t : List UInt8) :
    String.utf8EncodeChar c ++ s < String.utf8EncodeChar d ++ t := by
  have less : c.val.toNat < d.val.toNat := lt
  have top := toNat_val_lt d
  have digits : ∀ n : Nat, n / 4096 = n / 64 / 64 ∧ n / 262144 = n / 64 / 64 / 64 := by omega
  -- a longer form has a greater first byte; in one form the digits to the base 64 decide
  fun_cases String.utf8EncodeChar c <;> fun_cases String.utf8EncodeChar d <;>
    simp (disch := omega) only [List.cons_append, List.nil_append, List.cons_lt_cons_iff,
      ofNat_lt_ofNat, ofNat_inj, digits] <;>
    omega

end Characters

theorem toList_toUTF8 (s : String) : s.toUTF8.toList = s.toList.flatMap String.utf8EncodeChar := by
  have bytes : s.toUTF8 = (s.toList.flatMap String.utf8EncodeChar).toByteArray := by
    rw [String.toUTF8_eq_toByteArray, ← String.ofList_toList (s := s), String.toByteArray_ofList,
      String.toList_ofList, List.utf8Encode]
  rw [bytes, Wire.toList_eq_data, List.data_toByteArray]

theorem flatMap_utf8EncodeChar_lt {a b : List Char} (lt : a < b) :
    a.flatMap String.utf8EncodeChar < b.flatMap String.utf8EncodeChar := by
  induction a generalizing b with
  | nil =>
    cases b with
    | nil => exact absurd lt (List.not_lt_nil [])
    | cons d b =>
      obtain ⟨first, later, form⟩ := List.exists_cons_of_ne_nil (String.utf8EncodeChar_ne_nil (c := d))
      rw [List.flatMap_nil, List.flatMap_cons, form, List.cons_append]
      exact List.nil_lt_cons _ _
  | cons c a ih =>
    cases b with
    | nil => exact absurd lt (List.not_lt_nil _)
    | cons d b =>
      rw [List.flatMap_cons, List.flatMap_cons]
      obtain first | ⟨rfl, later⟩ := List.cons_lt_cons_iff.mp lt
      · exact utf8EncodeChar_append_lt first _ _
      · exact List.append_left_lt (ih later)

theorem compare_eq_lt_iff_bytes {a b : String} :
    compare a b = .lt ↔ a.toUTF8.toList < b.toUTF8.toList := by
  rw [compare_eq_lt, toList_toUTF8, toList_toUTF8]
  constructor
  · exact flatMap_utf8EncodeChar_lt
  · intro lt
    refine Decidable.byContradiction fun not_lt => ?_
    by_cases gt : b.toList < a.toList
    · exact List.lt_asymm lt (flatMap_utf8EncodeChar_lt gt)
    · rw [List.le_antisymm gt not_lt] at lt
      exact List.lt_irrefl _ lt

end Text

end Reprise
