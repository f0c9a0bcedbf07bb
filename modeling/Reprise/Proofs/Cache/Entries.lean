import Reprise.Cache.Nearest

/-!
What a cache holds: an insertion adds one entry and keeps the others, and the nearest entries are
entries of the cache that are within the size limit.
-/
set_option autoImplicit false

namespace Reprise

variable {α : Type}

theorem mem_insertSlot {key : Binary64} {new slot : Slot α} {buckets : List (Bucket α)} :
    slot ∈ (insertSlot key new buckets).flatMap Bucket.slots ↔
      slot = new ∨ slot ∈ buckets.flatMap Bucket.slots := by
  induction buckets with
  | nil => simp [insertSlot]
  | cons b rest ih =>
    rw [insertSlot]
    split
    · simp
    · simp only [List.flatMap_cons, List.mem_append, List.mem_singleton]
      rw [or_assoc, or_left_comm]
    · rw [List.flatMap_cons, List.mem_append, ih, List.flatMap_cons, List.mem_append, or_left_comm]

theorem mem_of_mem_outward {key : Binary64} {below above : List (Bucket α)} {slot : Slot α}
    (h : slot ∈ (outward key below above).flatten) :
    slot ∈ below.flatMap Bucket.slots ∨ slot ∈ above.flatMap Bucket.slots := by
  fun_induction outward key below above with
  | case1 above => exact Or.inr h
  | case2 below not_nil => exact Or.inl h
  | case3 b below a above lt ih =>
    cases List.mem_append.mp h with
    | inl first => exact Or.inl (by simp [first])
    | inr later => exact (ih later).imp (fun h => by simp [h]) id
  | case4 b below a above gt ih =>
    cases List.mem_append.mp h with
    | inl first => exact Or.inr (by simp [first])
    | inr later => exact (ih later).imp id fun h => by simp [h]
  | case5 b below a above eq ih =>
    cases List.mem_append.mp h with
    | inl first =>
      cases List.mem_merge.mp first with
      | inl left => exact Or.inl (by simp [left])
      | inr right => exact Or.inr (by simp [right])
    | inr later => exact (ih later).imp (fun h => by simp [h]) fun h => by simp [h]

namespace Cache

theorem mem_slots {c : Cache α} {slot : Slot α} :
    slot ∈ c.slots ↔ slot ∈ c.buckets.flatMap Bucket.slots := List.mem_mergeSort

@[simp] theorem entries_empty : (empty : Cache α).entries = [] := by
  simp [entries, slots, empty]

theorem mem_entries_insert {c : Cache α} {new e : Entry α} :
    e ∈ (c.insert new).entries ↔ e = new ∨ e ∈ c.entries := by
  simp only [entries, List.mem_map, mem_slots, insert, mem_insertSlot, or_and_right, exists_or,
    exists_eq_left]
  rw [eq_comm]

theorem mem_foldl_insert {e : Entry α} (found : List (Entry α)) (c : Cache α) :
    e ∈ (found.foldl insert c).entries ↔ e ∈ c.entries ∨ e ∈ found := by
  induction found generalizing c with
  | nil => simp
  | cons first rest ih =>
    rw [List.foldl_cons, ih, mem_entries_insert, List.mem_cons, or_assoc, or_left_comm]

theorem mem_nearest {c : Cache α} {key : Binary64} {k : Nat} {limit : Option Nat} {e : Entry α}
    (h : e ∈ c.nearest key k limit) : e ∈ c.entries ∧ fits limit e.size = true := by
  obtain ⟨slot, mem, rfl⟩ := List.mem_map.mp h
  obtain ⟨met, fit⟩ := List.mem_filter.mp (List.mem_of_mem_take mem)
  refine ⟨List.mem_map_of_mem (mem_slots.mpr ?_), fit⟩
  -- the two sides are the buckets up to the key and those above it
  rw [← List.takeWhile_append_dropWhile (p := fun b => decide (b.key.place ≤ key.place))
    (l := c.buckets), List.flatMap_append, List.mem_append]
  refine (mem_of_mem_outward met).imp (fun below => ?_) id
  simpa only [List.mem_flatMap, List.mem_reverse] using below

end Cache

end Reprise
