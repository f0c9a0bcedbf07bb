import Reprise.Proofs.Ordered.Map
import Reprise.Proofs.Table.Lawful
import Reprise.Proofs.Text.Order
import Reprise.Table.Faulty

/-!
Tables that do not fail, and the same tables when they fail on demand. Without a failure a read tells
what is held, a write goes through, and the keys of a pattern are listed without repetition, all of
them.
-/
set_option autoImplicit false

namespace Reprise

open LawfulTable (held)

namespace Pattern

theorem accepts_of_stem? {pattern stem key : String} (h : stem? pattern = some stem) :
    accepts pattern key = begins stem key := by
  rw [accepts, h]

end Pattern

class ReliableTable (τ : Type) [Table τ] [LawfulTable τ] where
  /-- The tables that writing leads to. -/
  Sound : τ → Prop
  get?_eq : ∀ (t : τ) (key : String), Table.get? t key = .ok (held t key)
  put_ok : ∀ {t : τ} (key : String) (value : Bytes), Sound t →
    ∃ t', Table.put t key value = .ok t' ∧ Sound t'
  list_ok : ∀ {t : τ} (pattern : String), Sound t → ∃ keys, Table.keysMatching t pattern = .ok keys ∧
    keys.Nodup ∧ ∀ key, key ∈ keys ↔ (held t key).isSome ∧ Pattern.accepts pattern key = true

open ReliableTable (Sound)

namespace MemoryTable

theorem mem_keys_replaceIn {key k : String} {value : Bytes} {entries : List (String × Bytes)} :
    k ∈ (replaceIn key value entries).map Prod.fst ↔ k = key ∨ k ∈ entries.map Prod.fst := by
  induction entries with
  | nil => simp [replaceIn]
  | cons head rest ih =>
    rw [replaceIn]
    split
    · rename_i same
      simp [same]
    · rw [List.map_cons, List.mem_cons, ih, List.map_cons, List.mem_cons, or_left_comm]

theorem nodup_keys_replaceIn {key : String} {value : Bytes} {entries : List (String × Bytes)}
    (h : (entries.map Prod.fst).Nodup) : ((replaceIn key value entries).map Prod.fst).Nodup := by
  induction entries with
  | nil => exact List.pairwise_singleton ..
  | cons head rest ih =>
    rw [replaceIn]
    split
    · exact h
    · rename_i other
      obtain ⟨absent, distinct⟩ := List.nodup_cons.mp h
      refine List.nodup_cons.mpr ⟨fun mem => ?_, ih distinct⟩
      exact (mem_keys_replaceIn.mp mem).elim other absent

theorem isSome_get?_iff {t : MemoryTable} {key : String} :
    (t.get? key).isSome ↔ key ∈ t.entries.map Prod.fst := by
  simp only [get?, List.lookup_isSome_iff, List.mem_map, beq_iff_eq, eq_comm (a := key)]

end MemoryTable

instance : ReliableTable MemoryTable where
  Sound t := (t.entries.map Prod.fst).Nodup
  get?_eq _ _ := rfl
  put_ok _ _ h := ⟨_, rfl, MemoryTable.nodup_keys_replaceIn h⟩
  list_ok _ h := by
    refine ⟨_, rfl, h.filter _, fun key => ?_⟩
    rw [MemoryTable.keysMatching, List.mem_filter, ← MemoryTable.isSome_get?_iff]
    exact Iff.rfl

namespace SortedTable

theorem ascending_keys (t : SortedTable) : Ascending t.entries.keys :=
  List.pairwise_map.mpr t.entries.increasing

theorem sublist_keysMatching (t : SortedTable) (pattern : String) :
    (t.keysMatching pattern).Sublist t.entries.keys := by
  rw [keysMatching]
  split
  · split
    · rename_i found
      exact List.singleton_sublist.mpr (OrderedMap.get?_isSome_iff.mp found)
    · exact List.nil_sublist _
  · exact (List.takeWhile_sublist _).trans (List.dropWhile_sublist _)

theorem nodup_keysMatching (t : SortedTable) (pattern : String) : (t.keysMatching pattern).Nodup :=
  t.ascending_keys.nodup.sublist (t.sublist_keysMatching pattern)

theorem mem_keysMatching {t : SortedTable} {pattern key : String} : key ∈ t.keysMatching pattern ↔
    (t.get? key).isSome ∧ Pattern.accepts pattern key = true := by
  rw [keysMatching]
  split
  · rename_i no_star
    rw [Pattern.accepts, no_star]
    simp only [beq_iff_eq]
    split
    · rename_i found
      rw [List.mem_singleton]
      exact ⟨fun same => ⟨same ▸ found, same⟩, And.right⟩
    · rename_i absent
      exact iff_of_false List.not_mem_nil fun both => absent (both.2 ▸ both.1)
  · rename_i stem star
    rw [Pattern.accepts_of_stem? star, get?, OrderedMap.get?_isSome_iff]
    exact Text.mem_scan_iff t.ascending_keys

end SortedTable

instance : ReliableTable SortedTable where
  Sound _ := True
  get?_eq _ _ := rfl
  put_ok _ _ _ := ⟨_, rfl, trivial⟩
  list_ok {t} pattern _ := ⟨_, rfl, t.nodup_keysMatching pattern, fun _ => SortedTable.mem_keysMatching⟩

namespace FaultyTable

variable {τ : Type}

def during (t : FaultyTable τ) (o : Outage) : FaultyTable τ := ⟨t.table, o⟩

@[simp] theorem during_outage (t : FaultyTable τ) : t.during t.outage = t := rfl

variable [Table τ] [LawfulTable τ]

@[simp] theorem held_during (t : FaultyTable τ) (o : Outage) (key : String) :
    held (t.during o) key = held t key := rfl

variable [ReliableTable τ]

theorem get?_eq (t : FaultyTable τ) (key : String) : Table.get? t key =
    if t.outage.reads key then .error fault
    else if t.outage.missing key then .ok none
    else .ok (held t key) := by
  simp only [Table.get?, ReliableTable.get?_eq t.table key]
  rfl

/-- A write is refused, or it goes through and other failures stay as they are. -/
theorem put_eq {t : FaultyTable τ} (sound : Sound t.table) (key : String) (value : Bytes) :
    (t.outage.writes key = true ∧ Table.put t key value = .error fault) ∨
    (t.outage.writes key = false ∧ ∃ t' : FaultyTable τ, Table.put t key value = .ok t' ∧
      Sound t'.table ∧ t'.outage = t.outage) := by
  cases refused : t.outage.writes key with
  | true => exact Or.inl ⟨rfl, by simp [Table.put, refused]⟩
  | false =>
    obtain ⟨table, done, sound'⟩ := ReliableTable.put_ok key value sound
    refine Or.inr ⟨rfl, { t with table := table }, ?_, sound', rfl⟩
    simp [Table.put, refused, done, Except.map]

theorem keysMatching_eq {t : FaultyTable τ} (sound : Sound t.table) (pattern : String) :
    (t.outage.listing = true ∧ Table.keysMatching t pattern = .error fault) ∨
    (t.outage.listing = false ∧ ∃ keys, Table.keysMatching t pattern = .ok keys ∧ keys.Nodup ∧
      ∀ key, key ∈ keys ↔ (held t key).isSome ∧ Pattern.accepts pattern key = true) := by
  cases refused : t.outage.listing with
  | true => exact Or.inl ⟨rfl, by simp [Table.keysMatching, refused]⟩
  | false =>
    obtain ⟨keys, listed, complete⟩ := ReliableTable.list_ok pattern sound
    exact Or.inr ⟨rfl, keys, by simp [Table.keysMatching, refused, listed], complete⟩

end FaultyTable

end Reprise
