import Reprise.Ordered.Map

/-!
Sorted lists: there is one for the elements given, so sorting leads to it.
-/
set_option autoImplicit false

namespace Reprise

variable {α κ : Type}

theorem mergeSort_eq_of_perm {le : α → α → Bool} {l sorted : List α}
    (trans : ∀ a b c, le a b = true → le b c = true → le a c = true)
    (total : ∀ a b, (le a b || le b a) = true)
    (apart : ∀ a ∈ sorted, ∀ b ∈ sorted, le a b = true → le b a = true → a = b)
    (perm : l.Perm sorted) (ordered : sorted.Pairwise fun a b => le a b = true) :
    l.mergeSort le = sorted := by
  have same : (l.mergeSort le).Perm sorted := (List.mergeSort_perm l le).trans perm
  exact List.Perm.eq_of_pairwise (fun a b ha hb => apart a (same.mem_iff.mp ha) b hb)
    (List.pairwise_mergeSort trans total l) ordered same

theorem isLE_total [Ord κ] [Std.OrientedOrd κ] (a b : κ) :
    ((compare a b).isLE || (compare b a).isLE) = true := by
  cases order : compare a b with
  | lt => rfl
  | eq => rfl
  | gt =>
    rw [Std.OrientedCmp.gt_iff_lt.mp order]
    rfl

def Ascending [Ord κ] (keys : List κ) : Prop := keys.Pairwise fun a b => compare a b = .lt

section Keys

variable [Ord κ] [Std.LawfulEqOrd κ]

theorem Ascending.nodup {keys : List κ} (h : Ascending keys) : keys.Nodup :=
  h.imp fun lt same => by simp [same] at lt

variable [Std.TransOrd κ]

theorem Ascending.eq_of_mem_iff {keys keys' : List κ} (h : Ascending keys) (h' : Ascending keys')
    (same : ∀ k, k ∈ keys ↔ k ∈ keys') : keys = keys' := by
  have perm : keys.Perm keys' := (List.perm_ext_iff_of_nodup h.nodup h'.nodup).mpr same
  refine List.Perm.eq_of_pairwise (fun a b _ _ lt gt => ?_) h h' perm
  have below : compare a a = .lt := Std.TransCmp.lt_trans lt gt
  simp at below

theorem Ascending.sublist_of_subset [DecidableEq κ] {keys keys' : List κ} (h : Ascending keys)
    (h' : Ascending keys') (sub : ∀ k ∈ keys, k ∈ keys') : keys.Sublist keys' := by
  have same : keys = keys'.filter fun k => k ∈ keys := by
    refine h.eq_of_mem_iff (h'.filter _) fun k => ?_
    rw [List.mem_filter, decide_eq_true_eq]
    exact ⟨fun mem => ⟨sub k mem, mem⟩, And.right⟩
  rw [same]
  exact List.filter_sublist

theorem Ascending.filterMap_eq {keys keys' : List κ} (h : Ascending keys) (h' : Ascending keys')
    (find : κ → Option α) (same : ∀ k, (find k).isSome → (k ∈ keys ↔ k ∈ keys')) :
    keys.filterMap find = keys'.filterMap find := by
  have fruitful : ∀ l : List κ, l.filterMap find = (l.filter fun k => (find k).isSome).filterMap find := by
    intro l
    rw [List.filterMap_filter]
    congr 1
    funext k
    cases find k <;> rfl
  have mem_iff : ∀ k, k ∈ keys.filter (fun k => (find k).isSome) ↔
      k ∈ keys'.filter (fun k => (find k).isSome) := by
    intro k
    rw [List.mem_filter, List.mem_filter]
    exact and_congr_left (same k)
  rw [fruitful keys, fruitful keys', eq_of_mem_iff (h.filter _) (h'.filter _) mem_iff]

theorem ascending_mergeSort {keys : List κ} (h : keys.Nodup) :
    Ascending (keys.mergeSort fun a b => (compare a b).isLE) := by
  have sorted : (keys.mergeSort fun a b => (compare a b).isLE).Pairwise
      fun a b => (compare a b).isLE = true :=
    List.pairwise_mergeSort (fun _ _ _ => Std.TransCmp.isLE_trans) isLE_total keys
  have apart : (keys.mergeSort fun a b => (compare a b).isLE).Nodup :=
    (List.mergeSort_perm keys _).nodup_iff.mpr h
  refine (sorted.and apart).imp fun ⟨le, ne⟩ => ?_
  cases Ordering.isLE_iff_eq_lt_or_eq_eq.mp le with
  | inl lt => exact lt
  | inr eq => exact absurd (Std.LawfulEqOrd.eq_of_compare eq) ne

end Keys

end Reprise
