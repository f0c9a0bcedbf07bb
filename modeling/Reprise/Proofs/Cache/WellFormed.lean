import Reprise.Cache.Persistence
import Reprise.Proofs.Cache.Inserted
import Reprise.Table.Memory

/-!
Caches in the course of any insertions, loads and clearing. Loading is a run of insertions, so a cache
stays well-formed and has exactly the entries that were inserted and loaded, in that order.
-/
set_option autoImplicit false

namespace Reprise

variable {α : Type}

namespace Cache

def loadable (α : Type) [Payload α] {τ : Type} [Table τ] (name : String) (table : τ) :
    List (Entry α) :=
  match Table.keysMatching table (keyPrefix α name ++ "*") with
  | .error _ => []
  | .ok keys => (keys.mergeSort fun a b => (compare a b).isLE).filterMap (storedEntry α table)

theorem load_eq [Payload α] {τ : Type} [Table τ] (c : Cache α) (name : String) (table : τ) :
    c.load name table = ((loadable α name table).length, (loadable α name table).foldl insert c) := by
  rw [load, loadable]
  cases Table.keysMatching table (keyPrefix α name ++ "*") with
  | error f => rfl
  | ok keys => rfl

theorem length_entries_load [Payload α] {τ : Type} [Table τ] (name : String) (table : τ) :
    (load (.empty : Cache α) name table).2.entries.length = (load (.empty : Cache α) name table).1 := by
  rw [load_eq, (wellFormed_empty.foldl_insert _).entries, List.nil_append]

/-- The caches that runs lead to, with the entries inserted and loaded since the cache was empty. -/
inductive Filled [Payload α] : List (Entry α) → Cache α → Prop
  | start : Filled [] .empty
  | insert {entries : List (Entry α)} {c : Cache α} (e : Entry α) :
    Filled entries c → Filled (entries ++ [e]) (c.insert e)
  | load {entries : List (Entry α)} {c : Cache α} {τ : Type} [Table τ] (name : String) (table : τ) :
    Filled entries c → Filled (entries ++ loadable α name table) (c.load name table).2
  | clear {entries : List (Entry α)} {c : Cache α} : Filled entries c → Filled [] .empty

/-- The buckets stand in the order of their keys, each with entries of exactly its key, oldest first;
the numbers and the size agree with the entries; and these are the entries inserted, in order. -/
theorem wellFormed_of_filled [Payload α] {entries : List (Entry α)} {c : Cache α}
    (h : Filled entries c) : c.WellFormed entries := by
  induction h with
  | start => exact wellFormed_empty
  | insert e _ ih => exact ih.insert e
  | load name table _ ih =>
    rw [load_eq]
    exact ih.foldl_insert _
  | clear _ _ => exact wellFormed_empty

/-- The two zeros are keys of their own: one entry loaded and two inserted, after the cache was cleared. -/
theorem wellFormed_of_zeros :
    let entry (key : Binary64) (size : Nat) : Entry Model := ⟨key, size, .empty⟩
    let table := MemoryTable.empty.put (entryKey Model "grulia" 7) ((entry 0 1).put [])
    let c := (((empty.load "grulia" table).2.insert (entry (Binary64.neg 0) 2)).insert (entry 0 3))
    c.buckets.map Bucket.key = [Binary64.neg 0, 0] ∧
      c.WellFormed [entry 0 1, entry (Binary64.neg 0) 2, entry 0 3] := by
  intro entry table c
  have loaded : loadable Model "grulia" table = [entry 0 1] := by decide +kernel
  have filled : Filled ([] ++ loadable Model "grulia" table ++ [entry (Binary64.neg 0) 2] ++ [entry 0 3]) c :=
    .insert _ (.insert _ (.load "grulia" table (.clear (.insert (entry 0 9) .start))))
  rw [loaded] at filled
  exact ⟨by decide +kernel, wellFormed_of_filled filled⟩

end Cache

end Reprise
