import Reprise.Proofs.Table.Reliable
import Reprise.Proofs.Text.Bytes

/-!
The two tables give the same answers. After the same writes they hold the same values and list the
same keys, the sorted table in the order of their bytes.
-/
set_option autoImplicit false

namespace Reprise

open LawfulTable (held)
open ReliableTable (Sound)

namespace Pattern

/-- What a pattern is for: itself, or all that begins as it does before its final star. -/
def Matches (pattern key : String) : Prop :=
  key = pattern ∨ ∃ stem, pattern = stem ++ "*" ∧ stem.toList <+: key.toList

theorem accepts_iff {pattern key : String} : accepts pattern key = true ↔ Matches pattern key := by
  by_cases star : ∃ stem, pattern = stem ++ "*"
  · obtain ⟨stem, rfl⟩ := star
    rw [accepts_star, begins, List.isPrefixOf_iff_prefix]
    constructor
    · exact fun begins => Or.inr ⟨stem, rfl, begins⟩
    · rintro (rfl | ⟨other, same, begins⟩)
      · rw [String.toList_append]
        exact List.prefix_append _ _
      · rwa [(String.append_left_inj _).mp same]
  · have no_stem : stem? pattern = none := by
      rw [stem?]
      split
      · rename_i stem reversed
        refine absurd ⟨String.ofList stem.reverse, String.toList_inj.mp ?_⟩ star
        rw [← List.reverse_reverse pattern.toList, reversed]
        simp
      · rfl
    rw [accepts, no_stem, beq_iff_eq]
    constructor
    · exact Or.inl
    · rintro (same | ⟨stem, same, -⟩)
      · exact same
      · exact absurd ⟨stem, same⟩ star

example : Pattern.accepts "a**" "a*b" = true ∧ Pattern.accepts "a**" "ab" = false := by decide

end Pattern

/-- The value that the last write under the key has left. -/
def lastPut (puts : List (String × Bytes)) (key : String) : Option Bytes := puts.reverse.lookup key

section Writes

variable {τ : Type} [Table τ]

def putAll (t : τ) (puts : List (String × Bytes)) : Except StoreFault τ :=
  puts.foldlM (fun t put => Table.put t put.1 put.2) t

variable [LawfulTable τ] [ReliableTable τ]

theorem putAll_ok (puts : List (String × Bytes)) {t : τ} (sound : Sound t) :
    ∃ t', putAll t puts = .ok t' ∧ Sound t' ∧
      ∀ key, held t' key = (lastPut puts key).or (held t key) := by
  induction puts generalizing t with
  | nil => exact ⟨t, rfl, sound, fun _ => rfl⟩
  | cons put puts ih =>
    obtain ⟨next, done, sound'⟩ := ReliableTable.put_ok put.1 put.2 sound
    obtain ⟨last, rest, sound'', holds⟩ := ih sound'
    refine ⟨last, ?_, sound'', fun key => ?_⟩
    · rw [putAll, List.foldlM_cons, done]
      exact rest
    · rw [holds, LawfulTable.held_put done, lastPut, lastPut, List.reverse_cons, List.lookup_append,
        Option.or_assoc]
      congr 1
      by_cases same : key = put.1
      · rw [if_pos same, List.lookup_cons, same, beq_self_eq_true]
        rfl
      · rw [if_neg same, List.lookup_cons, beq_false_of_ne same]
        rfl

theorem answers_after_puts (puts : List (String × Bytes)) (pattern : String) {t : τ} (sound : Sound t)
    (empty : ∀ key, held t key = none) : ∃ t' keys, putAll t puts = .ok t' ∧
    Table.keysMatching t' pattern = .ok keys ∧ keys.Nodup ∧
    (∀ key, key ∈ keys ↔ (lastPut puts key).isSome ∧ Pattern.Matches pattern key) ∧
    ∀ key, Table.get? t' key = .ok (lastPut puts key) := by
  obtain ⟨t', done, sound', holds⟩ := putAll_ok puts sound
  obtain ⟨keys, listed, nodup, complete⟩ := ReliableTable.list_ok pattern sound'
  have holds' : ∀ key, held t' key = lastPut puts key := fun key => by
    rw [holds, empty, Option.or_none]
  refine ⟨t', keys, done, listed, nodup, fun key => ?_, fun key => ?_⟩
  · rw [complete, holds', Pattern.accepts_iff]
  · rw [ReliableTable.get?_eq, holds']

end Writes

namespace SortedTable

theorem ascending_keysMatching (t : SortedTable) (pattern : String) :
    (t.keysMatching pattern).Pairwise fun a b => a.toUTF8.toList < b.toUTF8.toList :=
  (t.ascending_keys.sublist (t.sublist_keysMatching pattern)).imp Text.compare_eq_lt_iff_bytes.mp

end SortedTable

/-- After the same writes a table in memory and a sorted one tell of each key what was last put there,
and they list the same keys of a pattern, each once; the sorted table lists them as their bytes are
ordered. -/
theorem tables_agree (puts : List (String × Bytes)) (pattern : String) :
    ∃ memory sorted found listed,
      putAll MemoryTable.empty puts = .ok memory ∧ putAll SortedTable.empty puts = .ok sorted ∧
      Table.keysMatching memory pattern = .ok found ∧ Table.keysMatching sorted pattern = .ok listed ∧
      listed.Pairwise (fun a b => a.toUTF8.toList < b.toUTF8.toList) ∧
      found.Nodup ∧ listed.Nodup ∧ (∀ key, key ∈ listed ↔ key ∈ found) ∧
      (∀ key, key ∈ found ↔ (lastPut puts key).isSome ∧ Pattern.Matches pattern key) ∧
      ∀ key, Table.get? memory key = .ok (lastPut puts key) ∧
        Table.get? sorted key = .ok (lastPut puts key) := by
  obtain ⟨memory, found, in_memory, of_memory, nodup, complete, told⟩ :=
    answers_after_puts puts pattern (t := MemoryTable.empty) List.Pairwise.nil fun _ => rfl
  obtain ⟨sorted, listed, in_sorted, of_sorted, nodup', complete', told'⟩ :=
    answers_after_puts puts pattern (t := SortedTable.empty) trivial fun _ => rfl
  refine ⟨memory, sorted, found, listed, in_memory, in_sorted, of_memory, of_sorted, ?_, nodup, nodup',
    fun key => (complete' key).trans (complete key).symm, complete, fun key => ⟨told key, told' key⟩⟩
  rw [← Except.ok.inj of_sorted]
  exact sorted.ascending_keysMatching pattern

end Reprise
