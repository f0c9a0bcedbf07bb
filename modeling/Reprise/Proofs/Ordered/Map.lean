import Reprise.Ordered.Map

/-!
What ordered maps and sets hold: look-up is membership, a set contains its list, and a map made from
pairs that already stand in order is those pairs.
-/
set_option autoImplicit false

namespace Reprise

variable {κ α : Type} [Ord κ]

theorem lookupEntry_eq_some_iff [Std.TransOrd κ] [Std.LawfulEqOrd κ] {k : κ} {v : α}
    {entries : List (κ × α)} (h : Increasing entries) :
    lookupEntry k entries = some v ↔ (k, v) ∈ entries := by
  induction entries with
  | nil => simp [lookupEntry]
  | cons head rest ih =>
    obtain ⟨k', v'⟩ := head
    have head_lt := (List.pairwise_cons.mp h).1
    have rest_inc := (List.pairwise_cons.mp h).2
    rw [lookupEntry, List.mem_cons]
    split
    · rename_i lt
      have not_head : (k, v) ≠ (k', v') := by
        rintro same
        obtain ⟨rfl, -⟩ := Prod.mk.injEq .. ▸ same
        simp at lt
      have not_rest : (k, v) ∉ rest := fun mem => by
        have below : compare k k = .lt := Std.TransCmp.lt_trans lt (head_lt _ mem)
        simp at below
      simp [not_head, not_rest]
    · rename_i eq
      obtain rfl := Std.LawfulEqOrd.eq_of_compare eq
      have not_rest : (k, v) ∉ rest := fun mem => by
        have below : compare k k = .lt := head_lt _ mem
        simp at below
      simp [not_rest, eq_comm]
    · rename_i gt
      have not_head : (k, v) ≠ (k', v') := by
        rintro same
        obtain ⟨rfl, -⟩ := Prod.mk.injEq .. ▸ same
        simp at gt
      simp [not_head, ih rest_inc]

theorem insertEntry_of_above [Std.OrientedOrd κ] {k : κ} {entries : List (κ × α)} (v : α)
    (above : ∀ e ∈ entries, compare e.1 k = .lt) :
    insertEntry k v entries = entries ++ [(k, v)] := by
  induction entries with
  | nil => rfl
  | cons head rest ih =>
    obtain ⟨k', v'⟩ := head
    have gt : compare k k' = .gt :=
      Std.OrientedCmp.gt_iff_lt.mpr (above (k', v') List.mem_cons_self)
    rw [insertEntry, gt, ih fun e he => above e (List.mem_cons_of_mem _ he)]
    rfl

namespace OrderedMap

theorem ext {m n : OrderedMap κ α} (h : m.entries = n.entries) : m = n := by
  cases m; cases n; cases h; rfl

variable [Std.TransOrd κ] [Std.LawfulEqOrd κ]

theorem get?_eq_some_iff {m : OrderedMap κ α} {k : κ} {v : α} :
    m.get? k = some v ↔ (k, v) ∈ m.entries :=
  lookupEntry_eq_some_iff m.increasing

theorem get?_isSome_iff {m : OrderedMap κ α} {k : κ} : (m.get? k).isSome ↔ k ∈ m.keys := by
  constructor
  · intro h
    obtain ⟨v, found⟩ := Option.isSome_iff_exists.mp h
    exact List.mem_map.mpr ⟨(k, v), get?_eq_some_iff.mp found, rfl⟩
  · intro h
    obtain ⟨⟨_, v⟩, mem, rfl⟩ := List.mem_map.mp h
    exact Option.isSome_iff_exists.mpr ⟨v, get?_eq_some_iff.mpr mem⟩

theorem mem_keys_insert {m : OrderedMap κ α} {k k' : κ} {v : α} :
    k' ∈ (m.insert k v).keys ↔ k' = k ∨ k' ∈ m.keys := by
  simp only [← get?_isSome_iff]
  by_cases same : k' = k
  · simp [same]
  · simp [get?_insert_of_ne m same, same]

theorem foldl_insert_entries {pairs : List (κ × α)} (m : OrderedMap κ α)
    (h : Increasing (m.entries ++ pairs)) :
    (pairs.foldl (fun m p => m.insert p.1 p.2) m).entries = m.entries ++ pairs := by
  induction pairs generalizing m with
  | nil => simp
  | cons p rest ih =>
    have above : ∀ e ∈ m.entries, compare e.1 p.1 = .lt := fun e he =>
      (List.pairwise_append.mp h).2.2 e he p List.mem_cons_self
    have added : (m.insert p.1 p.2).entries = m.entries ++ [p] := insertEntry_of_above p.2 above
    rw [List.foldl_cons, ih (m.insert p.1 p.2) (by simpa [added] using h), added]
    simp

theorem entries_ofList {pairs : List (κ × α)} (h : Increasing pairs) :
    (ofList pairs).entries = pairs :=
  foldl_insert_entries empty h

theorem ofList_entries (m : OrderedMap κ α) : ofList m.entries = m :=
  ext (entries_ofList m.increasing)

end OrderedMap

namespace OrderedSet

variable [Std.TransOrd κ] [Std.LawfulEqOrd κ]

theorem contains_iff {s : OrderedSet κ} {k : κ} : s.contains k = true ↔ k ∈ s.toList :=
  OrderedMap.get?_isSome_iff

theorem mem_toList_insert {s : OrderedSet κ} {k k' : κ} :
    k' ∈ (s.insert k).toList ↔ k' = k ∨ k' ∈ s.toList :=
  OrderedMap.mem_keys_insert

theorem isSubsetOf_iff {s t : OrderedSet κ} :
    s.isSubsetOf t = true ↔ ∀ k ∈ s.toList, k ∈ t.toList := by
  simp only [isSubsetOf, List.all_eq_true, contains_iff]

end OrderedSet

end Reprise
