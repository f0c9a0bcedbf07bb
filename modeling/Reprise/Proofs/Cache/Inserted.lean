import Mathlib.Data.List.Nodup
import Reprise.Proofs.Binary64.Order
import Reprise.Proofs.Cache.Entries
import Reprise.Proofs.Ordered.Sorted

/-!
The caches that insertions make. An insertion keeps a cache well-formed: its buckets, numbers and size
agree with each other, and it has exactly the entries that were inserted, in that order.
-/
set_option autoImplicit false

namespace Reprise

variable {α : Type}

theorem perm_insertSlot (key : Binary64) (slot : Slot α) (buckets : List (Bucket α)) :
    ((insertSlot key slot buckets).flatMap Bucket.slots).Perm (slot :: buckets.flatMap Bucket.slots) := by
  induction buckets with
  | nil => exact List.Perm.refl _
  | cons b rest ih =>
    rw [insertSlot]
    split
    · exact List.Perm.refl _
    · simp only [List.flatMap_cons, List.append_assoc]
      exact List.perm_middle
    · rw [List.flatMap_cons, List.flatMap_cons]
      exact (ih.append_left b.slots).trans List.perm_middle

/-- After an insertion there are the old buckets, the bucket of the key with the slot at its end, or a
new one of the slot alone. -/
theorem mem_insertSlot_cases {key : Binary64} {slot : Slot α} {buckets : List (Bucket α)} {b : Bucket α}
    (h : b ∈ insertSlot key slot buckets) : b ∈ buckets ∨ b = ⟨key, [slot]⟩ ∨
      ∃ old ∈ buckets, old.key = key ∧ b = ⟨key, old.slots ++ [slot]⟩ := by
  induction buckets with
  | nil => exact Or.inr (Or.inl (List.mem_singleton.mp h))
  | cons head rest ih =>
    rw [insertSlot] at h
    split at h
    · cases List.mem_cons.mp h with
      | inl new => exact Or.inr (Or.inl new)
      | inr old => exact Or.inl old
    · rename_i eq
      have same : key = head.key := Binary64.compare_eq_eq.mp eq
      cases List.mem_cons.mp h with
      | inl grown =>
        exact Or.inr (Or.inr ⟨head, List.mem_cons_self, same.symm, grown.trans (by rw [same])⟩)
      | inr old => exact Or.inl (List.mem_cons_of_mem _ old)
    · cases List.mem_cons.mp h with
      | inl first => exact Or.inl (first ▸ List.mem_cons_self)
      | inr later =>
        refine (ih later).imp (List.mem_cons_of_mem _) (Or.imp id fun grown => ?_)
        obtain ⟨old, mem, same⟩ := grown
        exact ⟨old, List.mem_cons_of_mem _ mem, same⟩

theorem mem_keys_insertSlot {key : Binary64} {slot : Slot α} {buckets : List (Bucket α)} {b : Bucket α}
    (h : b ∈ insertSlot key slot buckets) : b.key = key ∨ ∃ old ∈ buckets, b.key = old.key := by
  obtain old | rfl | ⟨old, -, -, rfl⟩ := mem_insertSlot_cases h
  · exact Or.inr ⟨b, old, rfl⟩
  · exact Or.inl rfl
  · exact Or.inl rfl

def InKeyOrder (buckets : List (Bucket α)) : Prop :=
  buckets.Pairwise fun a b => a.key.place < b.key.place

def KeyedAlike (buckets : List (Bucket α)) : Prop :=
  ∀ b ∈ buckets, ∀ slot ∈ b.slots, slot.entry.key = b.key

theorem inKeyOrder_insertSlot (key : Binary64) (slot : Slot α) {buckets : List (Bucket α)}
    (h : InKeyOrder buckets) : InKeyOrder (insertSlot key slot buckets) := by
  induction buckets with
  | nil => exact List.pairwise_singleton ..
  | cons head rest ih =>
    obtain ⟨above, ordered⟩ := List.pairwise_cons.mp h
    rw [insertSlot]
    split
    · rename_i lt
      have below := Binary64.compare_eq_lt.mp lt
      refine List.pairwise_cons.mpr ⟨fun b mem => ?_, h⟩
      cases List.mem_cons.mp mem with
      | inl same => exact same ▸ below
      | inr later => exact Int.lt_trans below (above b later)
    · exact List.pairwise_cons.mpr ⟨above, ordered⟩
    · rename_i gt
      have below := Binary64.compare_eq_gt.mp gt
      refine List.pairwise_cons.mpr ⟨fun b mem => ?_, ih ordered⟩
      cases mem_keys_insertSlot mem with
      | inl new => exact new ▸ below
      | inr old =>
        obtain ⟨b', mem', same⟩ := old
        exact same ▸ above b' mem'

theorem keyedAlike_insertSlot (slot : Slot α) {buckets : List (Bucket α)} (h : KeyedAlike buckets) :
    KeyedAlike (insertSlot slot.entry.key slot buckets) := by
  intro b mem slot' mem'
  obtain old | rfl | ⟨old, stored, same, rfl⟩ := mem_insertSlot_cases mem
  · exact h b old slot' mem'
  · rw [List.mem_singleton.mp mem']
  · cases List.mem_append.mp mem' with
    | inl earlier => exact (h old stored slot' earlier).trans same
    | inr added => rw [List.mem_singleton.mp added]

namespace Cache

def shelved (c : Cache α) : List (Slot α) := c.buckets.flatMap Bucket.slots

/-- The cache holds these entries, and its parts agree with each other. -/
structure WellFormed (c : Cache α) (entries : List (Entry α)) : Prop where
  inKeyOrder : InKeyOrder c.buckets
  keyedAlike : KeyedAlike c.buckets
  occupied : ∀ b ∈ c.buckets, b.slots ≠ []
  oldestFirst : ∀ b ∈ c.buckets, b.slots.Pairwise fun x y => x.seq < y.seq
  distinct : (c.shelved.map Slot.seq).Nodup
  numbered : ∀ slot ∈ c.shelved, slot.seq < c.nextSeq
  size : c.size = c.shelved.length
  entries : c.entries = entries

theorem length_entries (c : Cache α) : c.entries.length = c.shelved.length := by
  rw [entries, slots, List.length_map, List.length_mergeSort]
  rfl

theorem wellFormed_empty : (empty : Cache α).WellFormed [] where
  inKeyOrder := List.Pairwise.nil
  keyedAlike := nofun
  occupied := nofun
  oldestFirst := nofun
  distinct := List.Pairwise.nil
  numbered := nofun
  size := rfl
  entries := entries_empty

section Insertion

variable {c : Cache α} {entries : List (Entry α)} (h : c.WellFormed entries) (e : Entry α)

include h

theorem WellFormed.nodup_snoc {slots : List (Slot α)} (perm : slots.Perm c.shelved) :
    ((slots ++ [⟨c.nextSeq, e⟩] : List (Slot α)).map Slot.seq).Nodup := by
  have fresh : c.nextSeq ∉ slots.map Slot.seq := by
    intro mem
    obtain ⟨slot, stored, same⟩ := List.mem_map.mp mem
    have below := h.numbered slot (perm.mem_iff.mp stored)
    omega
  have distinct := (perm.map Slot.seq).nodup_iff.mpr h.distinct
  exact ((List.perm_append_singleton _ slots).map Slot.seq).nodup_iff.mpr
    (List.nodup_cons.mpr ⟨fresh, distinct⟩)

/-- The new slot has the greatest number, so it comes last. -/
theorem WellFormed.slots_insert : (c.insert e).slots = c.slots ++ [⟨c.nextSeq, e⟩] := by
  have shelved : c.slots.Perm c.shelved := List.mergeSort_perm ..
  have added : (c.insert e).shelved.Perm (c.slots ++ [⟨c.nextSeq, e⟩]) :=
    (perm_insertSlot ..).trans ((shelved.symm.cons _).trans (List.perm_append_singleton ..).symm)
  have trans : ∀ x y z : Slot α, decide (x.seq ≤ y.seq) = true → decide (y.seq ≤ z.seq) = true →
      decide (x.seq ≤ z.seq) = true := by simpa using fun _ _ _ => Nat.le_trans
  have total : ∀ x y : Slot α, (decide (x.seq ≤ y.seq) || decide (y.seq ≤ x.seq)) = true := by
    simpa using fun x y : Slot α => Nat.le_total x.seq y.seq
  refine mergeSort_eq_of_perm trans total ?_ added ?_
  · intro x memx y memy le ge
    have same : x.seq = y.seq := Nat.le_antisymm (of_decide_eq_true le) (of_decide_eq_true ge)
    exact List.inj_on_of_nodup_map (h.nodup_snoc e shelved) memx memy same
  · refine List.pairwise_append.mpr
      ⟨List.pairwise_mergeSort trans total _, List.pairwise_singleton .., fun x mem y last => ?_⟩
    rw [List.mem_singleton.mp last]
    exact decide_eq_true (Nat.le_of_lt (h.numbered x (shelved.mem_iff.mp mem)))

theorem WellFormed.insert : (c.insert e).WellFormed (entries ++ [e]) := by
  have added : (c.insert e).shelved.Perm (⟨c.nextSeq, e⟩ :: c.shelved) := perm_insertSlot ..
  constructor
  case inKeyOrder => exact inKeyOrder_insertSlot _ _ h.inKeyOrder
  case keyedAlike => exact keyedAlike_insertSlot ⟨c.nextSeq, e⟩ h.keyedAlike
  case occupied =>
    intro b mem
    obtain old | rfl | ⟨old, -, -, rfl⟩ := mem_insertSlot_cases mem
    · exact h.occupied b old
    · exact List.cons_ne_nil _ _
    · exact List.concat_ne_nil _ _
  case oldestFirst =>
    intro b mem
    obtain old | rfl | ⟨old, stored, -, rfl⟩ := mem_insertSlot_cases mem
    · exact h.oldestFirst b old
    · exact List.pairwise_singleton ..
    · refine List.pairwise_append.mpr
        ⟨h.oldestFirst old stored, List.pairwise_singleton .., fun x earlier y last => ?_⟩
      rw [List.mem_singleton.mp last]
      exact h.numbered x (List.mem_flatMap.mpr ⟨old, stored, earlier⟩)
  case distinct =>
    have snoc := h.nodup_snoc e (List.Perm.refl _)
    exact ((added.trans (List.perm_append_singleton ..).symm).map Slot.seq).nodup_iff.mpr snoc
  case numbered =>
    intro slot mem
    cases List.mem_cons.mp (added.mem_iff.mp mem) with
    | inl new => exact new ▸ Nat.lt_succ_self _
    | inr old => exact Nat.lt_succ_of_lt (h.numbered slot old)
  case size => rw [added.length_eq, List.length_cons, ← h.size]; rfl
  case entries =>
    rw [Cache.entries, h.slots_insert, List.map_append, List.map_singleton, ← h.entries]
    rfl

omit h e in
theorem WellFormed.foldl_insert (h : c.WellFormed entries) (more : List (Entry α)) :
    (more.foldl Cache.insert c).WellFormed (entries ++ more) := by
  induction more generalizing c entries with
  | nil => rwa [List.append_nil]
  | cons e rest ih =>
    have later := ih (h.insert e)
    rwa [List.append_assoc, List.singleton_append] at later

end Insertion

/-- Entries with the numbers of their insertions, from `n` on. -/
def numbered (n : Nat) (entries : List (Entry α)) : List (Slot α) :=
  (entries.zipIdx n).map fun p => ⟨p.2, p.1⟩

theorem numbered_cons (n : Nat) (e : Entry α) (entries : List (Entry α)) :
    numbered n (e :: entries) = ⟨n, e⟩ :: numbered (n + 1) entries := by
  rw [numbered, numbered, List.zipIdx_cons, List.map_cons]

theorem mem_numbered {entries : List (Entry α)} {slot : Slot α} :
    slot ∈ numbered 0 entries ↔ entries[slot.seq]? = some slot.entry := by
  rw [numbered, List.mem_map]
  constructor
  · rintro ⟨p, mem, rfl⟩
    exact List.mem_zipIdx_iff_getElem?.mp mem
  · intro at_seq
    exact ⟨(slot.entry, slot.seq), List.mem_zipIdx_iff_getElem?.mpr at_seq, rfl⟩

theorem map_entry_numbered (n : Nat) (entries : List (Entry α)) :
    (numbered n entries).map Slot.entry = entries := by
  induction entries generalizing n with
  | nil => rfl
  | cons e rest ih => rw [numbered_cons, List.map_cons, ih]

theorem le_seq_of_mem_numbered {n : Nat} {entries : List (Entry α)} {slot : Slot α}
    (h : slot ∈ numbered n entries) : n ≤ slot.seq := by
  obtain ⟨p, mem, rfl⟩ := List.mem_map.mp h
  exact List.le_snd_of_mem_zipIdx mem

theorem seq_lt_of_mem_numbered {n : Nat} {entries : List (Entry α)} {slot : Slot α}
    (h : slot ∈ numbered n entries) : slot.seq < n + entries.length := by
  obtain ⟨p, mem, rfl⟩ := List.mem_map.mp h
  exact List.snd_lt_add_of_mem_zipIdx mem

theorem numbered_increasing (n : Nat) (entries : List (Entry α)) :
    (numbered n entries).Pairwise fun a b => a.seq < b.seq := by
  induction entries generalizing n with
  | nil => exact List.Pairwise.nil
  | cons e rest ih =>
    rw [numbered_cons]
    exact List.pairwise_cons.mpr ⟨fun slot mem => le_seq_of_mem_numbered mem, ih (n + 1)⟩

theorem eq_of_seq_eq {n : Nat} {entries : List (Entry α)} {a b : Slot α} (ha : a ∈ numbered n entries)
    (hb : b ∈ numbered n entries) (same : a.seq = b.seq) : a = b := by
  obtain ⟨⟨e, i⟩, mem, rfl⟩ := List.mem_map.mp ha
  obtain ⟨⟨e', j⟩, mem', rfl⟩ := List.mem_map.mp hb
  have at_i := (List.mk_mem_zipIdx_iff_le_and_getElem?_sub.mp mem).2
  have at_j := (List.mk_mem_zipIdx_iff_le_and_getElem?_sub.mp mem').2
  obtain rfl : i = j := same
  obtain rfl := Option.some.inj (at_i.symm.trans at_j)
  rfl

def ofEntries (entries : List (Entry α)) : Cache α := entries.foldl insert empty

theorem insert_ofEntries (entries : List (Entry α)) (e : Entry α) :
    (ofEntries entries).insert e = ofEntries (entries ++ [e]) := by
  rw [ofEntries, ofEntries, List.foldl_append, List.foldl_cons, List.foldl_nil]

theorem foldl_insert_ofEntries (entries more : List (Entry α)) :
    more.foldl insert (ofEntries entries) = ofEntries (entries ++ more) := by
  rw [ofEntries, ofEntries, List.foldl_append]

theorem perm_foldl_insert (entries : List (Entry α)) (c : Cache α) :
    ((entries.foldl insert c).buckets.flatMap Bucket.slots).Perm
      (c.buckets.flatMap Bucket.slots ++ numbered c.nextSeq entries) := by
  induction entries generalizing c with
  | nil => simp [numbered]
  | cons e rest ih =>
    rw [List.foldl_cons, numbered_cons]
    refine (ih (c.insert e)).trans ?_
    exact ((perm_insertSlot _ _ _).append_right _).trans List.perm_middle.symm

theorem wellFormed_ofEntries (entries : List (Entry α)) : (ofEntries entries).WellFormed entries :=
  wellFormed_empty.foldl_insert entries

@[simp] theorem entries_ofEntries (entries : List (Entry α)) : (ofEntries entries).entries = entries :=
  (wellFormed_ofEntries entries).entries

theorem key_of_mem_foldl_insert (entries : List (Entry α)) {c : Cache α} {b : Bucket α}
    (h : b ∈ (entries.foldl insert c).buckets) :
    (∃ e ∈ entries, b.key = e.key) ∨ ∃ old ∈ c.buckets, b.key = old.key := by
  induction entries generalizing c with
  | nil => exact Or.inr ⟨b, h, rfl⟩
  | cons e rest ih =>
    cases ih h with
    | inl later =>
      obtain ⟨e', mem, same⟩ := later
      exact Or.inl ⟨e', List.mem_cons_of_mem _ mem, same⟩
    | inr earlier =>
      obtain ⟨b', mem, same⟩ := earlier
      cases mem_keys_insertSlot mem with
      | inl new => exact Or.inl ⟨e, List.mem_cons_self, same.trans new⟩
      | inr old =>
        obtain ⟨old, mem', same'⟩ := old
        exact Or.inr ⟨old, mem', same.trans same'⟩

theorem exists_key_of_mem_ofEntries {entries : List (Entry α)} {b : Bucket α}
    (h : b ∈ (ofEntries entries).buckets) : ∃ e ∈ entries, b.key = e.key :=
  (key_of_mem_foldl_insert entries h).resolve_right fun ⟨_, mem, _⟩ => nomatch mem

theorem size_ofEntries (entries : List (Entry α)) : (ofEntries entries).size = entries.length := by
  have h := wellFormed_ofEntries entries
  rw [h.size, ← length_entries, h.entries]

end Cache

end Reprise
