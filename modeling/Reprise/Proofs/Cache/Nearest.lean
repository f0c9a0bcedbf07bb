import Reprise.Proofs.Binary64.Difference
import Reprise.Proofs.Cache.Entries
import Reprise.Proofs.Cache.Inserted

/-!
The nearest entries. Going outward from a key passes all slots in the order of their distances, so the
first that fit are the nearest of those that fit.
-/
set_option autoImplicit false

namespace Reprise

variable {α : Type} {key : Binary64}

theorem perm_outward (key : Binary64) (below above : List (Bucket α)) :
    (outward key below above).flatten.Perm
      (below.flatMap Bucket.slots ++ above.flatMap Bucket.slots) := by
  fun_induction outward key below above with
  | case1 above => exact List.Perm.refl _
  | case2 below not_nil =>
    rw [List.flatMap_nil, List.append_nil]
    exact List.Perm.refl _
  | case3 b below a above lt ih =>
    rw [List.flatten_cons, List.flatMap_cons, List.append_assoc]
    exact ih.append_left _
  | case4 b below a above gt ih =>
    exact (ih.append_left a.slots).trans (List.perm_append_comm_assoc ..)
  | case5 b below a above eq ih =>
    rw [List.flatten_cons, List.flatMap_cons, List.append_assoc]
    have group : (b.slots.merge a.slots fun x y => x.seq ≤ y.seq).Perm (b.slots ++ a.slots) :=
      List.merge_perm_append _
    refine (group.append ih).trans ?_
    rw [List.append_assoc]
    exact (List.perm_append_comm_assoc ..).append_left b.slots

def Recedes (key : Binary64) (buckets : List (Bucket α)) : Prop :=
  buckets.Pairwise fun a b => key.AsNear a.key b.key

def NearestFirst (key : Binary64) (slots : List (Slot α)) : Prop :=
  slots.Pairwise fun a b => key.AsNear a.entry.key b.entry.key

theorem nearestFirst_append (k : Binary64) {group rest : List (Slot α)}
    (same : ∀ slot ∈ group, key.AsNear k slot.entry.key ∧ key.AsNear slot.entry.key k)
    (later : ∀ slot ∈ rest, key.AsNear k slot.entry.key) (ordered : NearestFirst key rest) :
    NearestFirst key (group ++ rest) := by
  refine List.pairwise_append.mpr ⟨?_, ordered, fun a ha b hb => ?_⟩
  · refine List.pairwise_of_forall_mem_list fun a ha b hb => ?_
    exact Int.le_trans (same a ha).2 (same b hb).1
  · exact Int.le_trans (same a ha).2 (later b hb)

theorem nearestFirst_bucket {b : Bucket α} {rest : List (Slot α)}
    (keyed : ∀ slot ∈ b.slots, slot.entry.key = b.key)
    (later : ∀ slot ∈ rest, key.AsNear b.key slot.entry.key) (ordered : NearestFirst key rest) :
    NearestFirst key (b.slots ++ rest) := by
  refine nearestFirst_append b.key (fun slot mem => ?_) later ordered
  rw [keyed slot mem]
  exact ⟨Int.le_refl _, Int.le_refl _⟩

theorem KeyedAlike.tail {b : Bucket α} {buckets : List (Bucket α)} (h : KeyedAlike (b :: buckets)) :
    KeyedAlike buckets := fun b' mem => h b' (List.mem_cons_of_mem _ mem)

theorem asNear_of_mem {buckets : List (Bucket α)} {k : Binary64} {slot : Slot α}
    (keyed : KeyedAlike buckets) (far : ∀ b ∈ buckets, key.AsNear k b.key)
    (h : slot ∈ buckets.flatMap Bucket.slots) : key.AsNear k slot.entry.key := by
  obtain ⟨b, mem, mem'⟩ := List.mem_flatMap.mp h
  exact keyed b mem slot mem' ▸ far b mem

theorem nearestFirst_of_recedes {buckets : List (Bucket α)} (keyed : KeyedAlike buckets)
    (h : Recedes key buckets) : NearestFirst key (buckets.flatMap Bucket.slots) := by
  induction buckets with
  | nil => exact List.Pairwise.nil
  | cons b rest ih =>
    obtain ⟨far, recedes⟩ := List.pairwise_cons.mp h
    exact nearestFirst_bucket (keyed b List.mem_cons_self)
      (fun slot mem => asNear_of_mem keyed.tail far mem) (ih keyed.tail recedes)

structure LeadsDown (key : Binary64) (buckets : List (Bucket α)) : Prop where
  keyed : KeyedAlike buckets
  side : ∀ b ∈ buckets, b.key.place ≤ key.place
  recedes : Recedes key buckets

structure LeadsUp (key : Binary64) (buckets : List (Bucket α)) : Prop where
  keyed : KeyedAlike buckets
  side : ∀ b ∈ buckets, key.place < b.key.place
  recedes : Recedes key buckets

section Ends

variable {a b : Bucket α} {below above : List (Bucket α)} {k : Binary64}

theorem LeadsDown.tail (h : LeadsDown key (b :: below)) : LeadsDown key below :=
  ⟨h.keyed.tail, fun b' mem => h.side b' (List.mem_cons_of_mem _ mem),
    (List.pairwise_cons.mp h.recedes).2⟩

theorem LeadsUp.tail (h : LeadsUp key (a :: above)) : LeadsUp key above :=
  ⟨h.keyed.tail, fun a' mem => h.side a' (List.mem_cons_of_mem _ mem),
    (List.pairwise_cons.mp h.recedes).2⟩

theorem Recedes.asNear (h : Recedes key (b :: below)) (near : key.AsNear k b.key) :
    ∀ b' ∈ b :: below, key.AsNear k b'.key := by
  intro b' mem
  cases List.mem_cons.mp mem with
  | inl first => exact first ▸ near
  | inr later => exact Int.le_trans near ((List.pairwise_cons.mp h).1 b' later)

theorem compare_ends (down : LeadsDown key (b :: below)) (up : LeadsUp key (a :: above)) :
    compare (key.sub b.key) (a.key.sub key) = compare (key.distance b.key) (key.distance a.key) := by
  rw [Binary64.distance_of_le (down.side b List.mem_cons_self),
    Binary64.distance_of_lt (up.side a List.mem_cons_self)]

theorem asNear_of_mem_outward {slot : Slot α} (down : LeadsDown key below) (up : LeadsUp key above)
    (far : ∀ b ∈ below, key.AsNear k b.key) (far' : ∀ a ∈ above, key.AsNear k a.key)
    (h : slot ∈ (outward key below above).flatten) : key.AsNear k slot.entry.key := by
  cases mem_of_mem_outward h with
  | inl lower => exact asNear_of_mem down.keyed far lower
  | inr upper => exact asNear_of_mem up.keyed far' upper

end Ends

theorem nearestFirst_outward {below above : List (Bucket α)} (down : LeadsDown key below)
    (up : LeadsUp key above) : NearestFirst key (outward key below above).flatten := by
  fun_induction outward key below above with
  | case1 above => exact nearestFirst_of_recedes up.keyed up.recedes
  | case2 below not_nil => exact nearestFirst_of_recedes down.keyed down.recedes
  | case3 b below a above lt ih =>
    have near : key.AsNear b.key a.key :=
      Int.le_of_lt (Binary64.compare_eq_lt.mp (compare_ends down up ▸ lt))
    refine nearestFirst_bucket (down.keyed b List.mem_cons_self) (fun slot mem => ?_) (ih down.tail up)
    exact asNear_of_mem_outward down.tail up (List.pairwise_cons.mp down.recedes).1
      (up.recedes.asNear near) mem
  | case4 b below a above gt ih =>
    have near : key.AsNear a.key b.key :=
      Int.le_of_lt (Binary64.compare_eq_gt.mp (compare_ends down up ▸ gt))
    refine nearestFirst_bucket (up.keyed a List.mem_cons_self) (fun slot mem => ?_) (ih down up.tail)
    exact asNear_of_mem_outward down up.tail (down.recedes.asNear near)
      (List.pairwise_cons.mp up.recedes).1 mem
  | case5 b below a above eq ih =>
    -- both buckets make one group at the distance of the lower one
    have same : key.distance b.key = key.distance a.key :=
      Binary64.compare_eq_eq.mp (compare_ends down up ▸ eq)
    have near : key.AsNear b.key a.key := Int.le_of_eq (congrArg Binary64.place same)
    have near' : key.AsNear a.key b.key := Int.le_of_eq (congrArg Binary64.place same.symm)
    refine nearestFirst_append b.key (fun slot mem => ?_) (fun slot mem => ?_) (ih down.tail up.tail)
    · cases List.mem_merge.mp mem with
      | inl left =>
        rw [down.keyed b List.mem_cons_self slot left]
        exact ⟨Int.le_refl _, Int.le_refl _⟩
      | inr right =>
        rw [up.keyed a List.mem_cons_self slot right]
        exact ⟨near, near'⟩
    · exact asNear_of_mem_outward down.tail up.tail (List.pairwise_cons.mp down.recedes).1
        (fun a' mem => up.recedes.asNear near a' (List.mem_cons_of_mem _ mem)) mem

section Sides

variable {buckets : List (Bucket α)}

theorem place_of_mem_dropWhile {b : Bucket α} (ordered : InKeyOrder buckets)
    (h : b ∈ buckets.dropWhile fun b => decide (b.key.place ≤ key.place)) :
    key.place < b.key.place := by
  induction buckets with
  | nil => cases h
  | cons head rest ih =>
    obtain ⟨above, ordered'⟩ := List.pairwise_cons.mp ordered
    rw [List.dropWhile_cons] at h
    split at h
    · exact ih ordered' h
    · rename_i beyond
      have lt : key.place < head.key.place := by simpa using beyond
      cases List.mem_cons.mp h with
      | inl first => exact first ▸ lt
      | inr later => exact Int.lt_trans lt (above b later)

theorem place_of_mem_takeWhile {b : Bucket α}
    (h : b ∈ buckets.takeWhile fun b => decide (b.key.place ≤ key.place)) :
    b.key.place ≤ key.place := of_decide_eq_true (List.all_eq_true.mp List.all_takeWhile b h)

variable (finite : key.isFinite = true) (numbers : ∀ b ∈ buckets, b.key.isNaN = false)
  (keyed : KeyedAlike buckets) (ordered : InKeyOrder buckets)

include finite numbers keyed ordered

theorem leadsDown_takeWhile :
    LeadsDown key (buckets.takeWhile fun b => decide (b.key.place ≤ key.place)).reverse := by
  have within := List.takeWhile_sublist (l := buckets) fun b => decide (b.key.place ≤ key.place)
  refine ⟨fun b mem => keyed b (within.subset (List.mem_reverse.mp mem)),
    fun b mem => place_of_mem_takeWhile (List.mem_reverse.mp mem), ?_⟩
  refine List.pairwise_reverse.mpr ((ordered.sublist within).imp_of_mem fun {b b'} mem mem' lt => ?_)
  exact Binary64.asNear_of_le finite (numbers b (within.subset mem)) (Int.le_of_lt lt)
    (place_of_mem_takeWhile mem')

theorem leadsUp_dropWhile :
    LeadsUp key (buckets.dropWhile fun b => decide (b.key.place ≤ key.place)) := by
  have within := List.dropWhile_sublist (l := buckets) fun b => decide (b.key.place ≤ key.place)
  refine ⟨fun b mem => keyed b (within.subset mem), fun b mem => place_of_mem_dropWhile ordered mem, ?_⟩
  refine (ordered.sublist within).imp_of_mem fun {b b'} mem mem' lt => ?_
  exact Binary64.asNear_of_lt finite (numbers b' (within.subset mem'))
    (place_of_mem_dropWhile ordered mem) (Int.le_of_lt lt)

end Sides

namespace Cache

/-- All slots in the order in which a search from the key comes to them. -/
def passed (c : Cache α) (key : Binary64) : List (Slot α) :=
  (outward key (c.buckets.takeWhile fun b => decide (b.key.place ≤ key.place)).reverse
    (c.buckets.dropWhile fun b => decide (b.key.place ≤ key.place))).flatten

theorem perm_passed (c : Cache α) (key : Binary64) :
    (c.passed key).Perm (c.buckets.flatMap Bucket.slots) := by
  refine (perm_outward key _ _).trans ?_
  refine (((List.reverse_perm _).flatMap_right _).append_right _).trans ?_
  rw [← List.flatMap_append, List.takeWhile_append_dropWhile]

theorem perm_passed_ofEntries (entries : List (Entry α)) (key : Binary64) :
    ((ofEntries entries).passed key).Perm (numbered 0 entries) :=
  (perm_passed _ key).trans (perm_foldl_insert entries empty)

theorem leads_ofEntries {entries : List (Entry α)} (finite : key.isFinite = true)
    (numbers : ∀ e ∈ entries, e.key.isNaN = false) :
    LeadsDown key
        ((ofEntries entries).buckets.takeWhile fun b => decide (b.key.place ≤ key.place)).reverse ∧
      LeadsUp key ((ofEntries entries).buckets.dropWhile fun b => decide (b.key.place ≤ key.place)) := by
  have keyed := (wellFormed_ofEntries entries).keyedAlike
  have ordered := (wellFormed_ofEntries entries).inKeyOrder
  have bucket_numbers : ∀ b ∈ (ofEntries entries).buckets, b.key.isNaN = false := by
    intro b mem
    obtain ⟨e, mem', same⟩ := exists_key_of_mem_ofEntries mem
    exact same ▸ numbers e mem'
  exact ⟨leadsDown_takeWhile finite bucket_numbers keyed ordered,
    leadsUp_dropWhile finite bucket_numbers keyed ordered⟩

theorem nearestFirst_passed {entries : List (Entry α)} (finite : key.isFinite = true)
    (numbers : ∀ e ∈ entries, e.key.isNaN = false) :
    NearestFirst key ((ofEntries entries).passed key) := by
  obtain ⟨down, up⟩ := leads_ofEntries finite numbers
  exact nearestFirst_outward down up

theorem length_filter_numbered (p : Entry α → Bool) (n : Nat) (entries : List (Entry α)) :
    ((numbered n entries).filter fun slot => p slot.entry).length = entries.countP p := by
  calc ((numbered n entries).filter fun slot => p slot.entry).length
      = ((numbered n entries).map Slot.entry).countP p := by
        rw [← List.countP_eq_length_filter, List.countP_map]
        rfl
    _ = entries.countP p := by rw [map_entry_numbered]

/-- Of the entries that fit `near` are as many as are wanted, each once and the nearest first, and none of
those that are left is nearer than one of them. -/
structure Chosen (key : Binary64) (entries : List (Entry α)) (k : Nat) (limit : Option Nat)
    (near left : List (Slot α)) : Prop where
  stored : (near ++ left).Perm ((numbered 0 entries).filter fun slot => fits limit slot.entry.size)
  distinct : near.Pairwise fun a b => a.seq ≠ b.seq
  count : near.length = min k (entries.countP fun e => fits limit e.size)
  ordered : NearestFirst key near
  apart : ∀ a ∈ near, ∀ b ∈ left, key.AsNear a.entry.key b.entry.key
  distances : ∀ slot ∈ near ++ left, 0 ≤ (key.distance slot.entry.key).place ∧
    (key.distance slot.entry.key).isNaN = false

theorem exists_chosen {entries : List (Entry α)} (finite : key.isFinite = true)
    (numbers : ∀ e ∈ entries, e.key.isNaN = false) (k : Nat) (limit : Option Nat) :
    ∃ left, Chosen key entries k limit ((ofEntries entries).nearestSlots key k limit) left := by
  let fitting := ((ofEntries entries).passed key).filter fun slot => fits limit slot.entry.size
  have split : fitting.take k ++ fitting.drop k = fitting := List.take_append_drop k fitting
  have stored : fitting.Perm ((numbered 0 entries).filter fun slot => fits limit slot.entry.size) :=
    (perm_passed_ofEntries entries key).filter _
  have increasing := (numbered_increasing 0 entries).filter fun slot => fits limit slot.entry.size
  have distinct : fitting.Pairwise fun a b => a.seq ≠ b.seq :=
    (increasing.imp Nat.ne_of_lt).perm stored.symm fun ne => ne.symm
  have ordered : NearestFirst key fitting := (nearestFirst_passed finite numbers).filter _
  rw [← split] at ordered
  obtain ⟨near_ordered, -, apart⟩ := List.pairwise_append.mp ordered
  refine ⟨fitting.drop k, ?_, distinct.sublist (List.take_sublist ..), ?_, near_ordered, apart,
    fun slot mem => ?_⟩
  · exact split.symm ▸ stored
  · calc (fitting.take k).length
        = min k fitting.length := List.length_take
      _ = min k (entries.countP fun e => fits limit e.size) := by
        rw [stored.length_eq, length_filter_numbered fun e => fits limit e.size]
  · have fits_slot : slot ∈ fitting := split ▸ mem
    have entry : slot.entry ∈ entries := map_entry_numbered 0 entries ▸
      List.mem_map_of_mem (List.mem_filter.mp (stored.mem_iff.mp fits_slot)).1
    have bounds := Binary64.place_distance finite (numbers slot.entry entry)
    exact ⟨bounds.1, Binary64.isNaN_iff_place.mpr ⟨by omega, bounds.2⟩⟩

theorem nearest?_of_reservable {k : Nat} (room : k ≤ reservable) (c : Cache α) (key : Binary64)
    (limit : Option Nat) : c.nearest? key k limit = some ((c.nearestSlots key k limit).map Slot.entry) := by
  rw [nearest?, nearestSlots?, if_pos room]
  rfl

theorem nearest?_of_not_reservable {k : Nat} (beyond : reservable < k) (c : Cache α) (key : Binary64)
    (limit : Option Nat) : c.nearest? key k limit = none := by
  rw [nearest?, nearestSlots?, if_neg (Nat.not_le.mpr beyond)]
  rfl

/-- Where room can be reserved for `k` entries, the nearest ones are given. Where it cannot be, there is
no answer, however few entries there are. -/
theorem nearest_optimal {entries : List (Entry α)} (finite : key.isFinite = true)
    (numbers : ∀ e ∈ entries, e.key.isNaN = false) (k : Nat) (limit : Option Nat) :
    (k ≤ reservable → ∃ near left : List (Slot α),
      (ofEntries entries).nearest? key k limit = some (near.map Slot.entry) ∧
        Chosen key entries k limit near left) ∧
    (reservable < k → (ofEntries entries).nearest? key k limit = none) := by
  refine ⟨fun room => ?_, fun beyond => nearest?_of_not_reservable beyond _ key limit⟩
  obtain ⟨left, chosen⟩ := exists_chosen finite numbers k limit
  exact ⟨_, left, nearest?_of_reservable room _ key limit, chosen⟩

/-- Two of four entries at one distance, and one too large. -/
theorem nearest_of_four :
    let entry (n : Int) (size : Nat) : Entry Unit := ⟨.ofInt n, size, ()⟩
    let c := ofEntries [entry 10 1, entry 3 2, entry 6 1, entry 8 5]
    (∃ found, c.nearest? (.ofInt 8) 2 (some 2) = some found ∧ found.length = 2) ∧
      c.nearest? (.ofInt 8) (1 <<< 60) (some 2) = none := by
  intro entry c
  have numbers : ∀ e ∈ [entry 10 1, entry 3 2, entry 6 1, entry 8 5], e.key.isNaN = false := by
    decide +kernel
  have finite : (Binary64.ofInt 8).isFinite = true := by decide +kernel
  obtain ⟨near, left, same, chosen⟩ := (nearest_optimal finite numbers 2 (some 2)).1 (by decide)
  refine ⟨⟨_, same, ?_⟩, (nearest_optimal finite numbers (1 <<< 60) (some 2)).2 (by decide)⟩
  rw [List.length_map, chosen.count]
  decide +kernel

/-- Nothing is stored, and still no answer is given. -/
theorem empty_has_no_nearest :
    ¬ ∀ (entries : List (Entry Unit)) (key : Binary64) (k : Nat) (limit : Option Nat),
      key.isFinite = true → (∀ e ∈ entries, e.key.isNaN = false) →
        ∃ found, (ofEntries entries).nearest? key k limit = some found ∧
          found.length = min k (entries.countP fun e => fits limit e.size) := by
  intro claim
  obtain ⟨found, answered, -⟩ := claim [] (.ofInt 0) (1 <<< 60) none (by decide +kernel) nofun
  rw [nearest?_of_not_reservable (by decide)] at answered
  cases answered

end Cache

end Reprise
