import Reprise.Proofs.Ordered.Map
import Reprise.Table.Faulty
import Reprise.Table.Memory
import Reprise.Table.Sorted

/-!
What may be relied on of a table, however often it fails: a value that is read was held, a write that
goes through changes what is held under its key alone, and the keys listed are keys of the pattern.
-/
set_option autoImplicit false

namespace Reprise

namespace Pattern

theorem accepts_star {stem key : String} : accepts (stem ++ "*") key = begins stem key := by
  simp [accepts, stem?]

end Pattern

class LawfulTable (τ : Type) [Table τ] where
  /-- What the table holds, whether it can be read at the moment or not. -/
  held : τ → String → Option Bytes
  held_of_get? : ∀ {t : τ} {key : String} {value : Bytes},
    Table.get? t key = .ok (some value) → held t key = some value
  held_put : ∀ {t t' : τ} {key : String} {value : Bytes}, Table.put t key value = .ok t' →
    ∀ other, held t' other = if other = key then some value else held t other
  accepts_of_listed : ∀ {t : τ} {pattern : String} {keys : List String},
    Table.keysMatching t pattern = .ok keys → ∀ key ∈ keys, Pattern.accepts pattern key = true

open LawfulTable (held)

instance : LawfulTable MemoryTable where
  held t key := t.get? key
  held_of_get? h := Except.ok.inj h
  held_put {t _ key value} h other := by
    cases h
    by_cases same : other = key
    · simp [same]
    · rw [if_neg same, MemoryTable.get?_put_of_ne t same]
  accepts_of_listed h key mem := by
    cases h
    exact (List.mem_filter.mp mem).2

instance : LawfulTable SortedTable where
  held t key := t.get? key
  held_of_get? h := Except.ok.inj h
  held_put {t _ key value} h other := by
    cases h
    by_cases same : other = key
    · simp [same]
    · rw [if_neg same, SortedTable.get?_put_of_ne t same]
  accepts_of_listed {t pattern _} h key mem := by
    cases h
    rw [SortedTable.keysMatching] at mem
    split at mem
    · rename_i no_star
      split at mem
      · rw [List.mem_singleton.mp mem, Pattern.accepts, no_star]
        simp
      · exact absurd mem List.not_mem_nil
    · rename_i stem star
      rw [Pattern.accepts, star]
      exact List.all_eq_true.mp List.all_takeWhile key mem

instance {τ : Type} [Table τ] [LawfulTable τ] : LawfulTable (FaultyTable τ) where
  held t key := held t.table key
  held_of_get? {t key _} h := by
    simp only [Table.get?] at h
    split at h
    · cases h
    · split at h
      · cases h
      · exact LawfulTable.held_of_get? h
  held_put {t t' key value} h other := by
    simp only [Table.put] at h
    split at h
    · cases h
    · cases done : Table.put t.table key value with
      | error f =>
        rw [done] at h
        cases h
      | ok table =>
        rw [done] at h
        cases h
        exact LawfulTable.held_put done other
  accepts_of_listed {t pattern _} h key mem := by
    simp only [Table.keysMatching] at h
    split at h
    · cases h
    · exact LawfulTable.accepts_of_listed h key mem

end Reprise
