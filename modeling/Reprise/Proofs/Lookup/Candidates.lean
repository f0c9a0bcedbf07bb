import Reprise.Lookup.Core
import Reprise.Lookup.Model
import Reprise.Proofs.Cache.Entries
import Reprise.Proofs.Ordered.Map

/-!
What a lookup gives is a candidate that passed: a model under which the target holds, or a core that
the target contains.
-/
set_option autoImplicit false

namespace Reprise

theorem Model.trimmed_of_size_le {m : Model} {n : Nat} (h : m.size ≤ n) : m.trimmed n = m := by
  have all : m.assignments.entries.take n = m.assignments.entries := List.take_of_length_le h
  exact congrArg Model.mk (OrderedMap.ext all)

namespace Lookup

theorem trim_fst (m : Model) (size : Nat) (t : Tally) : (trim m size t).1 = m.trimmed size := by
  rw [trim]
  split
  · rename_i small
    exact (Model.trimmed_of_size_le (Nat.le_of_lt small)).symm
  · rfl

theorem trim_of_size_le {m : Model} {size : Nat} (h : m.size ≤ size) (t : Tally) :
    (trim m size t).1 = m := by
  rw [trim_fst, Model.trimmed_of_size_le h]

theorem firstModel_some {target : Expr} {size : Nat} {candidates : List Model} {t : Tally} {m : Model}
    (h : (firstModel target size candidates t).1 = .ok (some m)) :
    ∃ found ∈ candidates, target.satisfies found = .ok true ∧ ∃ t, m = (trim found size t).1 := by
  induction candidates generalizing t with
  | nil => cases h
  | cons first rest ih =>
    rw [firstModel] at h
    have later : ∀ t, (firstModel target size rest t).1 = .ok (some m) → ∃ found ∈ first :: rest,
        target.satisfies found = .ok true ∧ ∃ t, m = (trim found size t).1 := by
      intro t h
      obtain ⟨found, mem, passed⟩ := ih h
      exact ⟨found, List.mem_cons_of_mem _ mem, passed⟩
    split at h
    · rename_i passed
      cases h
      exact ⟨first, List.mem_cons_self, passed, _, rfl⟩
    · exact later _ h
    · exact later _ h
    · cases h

theorem firstCore_some {target : Expr} {candidates : List Core} {t : Tally} {c : Core}
    (h : (firstCore target candidates t).1 = some c) :
    c ∈ candidates ∧ c.isContainedIn target = true := by
  induction candidates generalizing t with
  | nil => cases h
  | cons first rest ih =>
    rw [firstCore] at h
    split at h
    · rename_i contained
      cases h
      exact ⟨List.mem_cons_self, contained⟩
    · obtain ⟨mem, contained⟩ := ih h
      exact ⟨List.mem_cons_of_mem _ mem, contained⟩

theorem findModel_some {models : Cache Model} {key : Binary64} {target : Expr} {size k : Nat}
    {t : Tally} {m : Model} (h : (findModel models key target size k t).1 = .ok (some m)) :
    ∃ found ∈ models.entries, found.size ≤ size ∧ target.satisfies found.payload = .ok true ∧
      ∃ t, m = (trim found.payload size t).1 := by
  obtain ⟨payload, mem, passed, trimmed⟩ := firstModel_some h
  obtain ⟨found, near, rfl⟩ := List.mem_map.mp mem
  obtain ⟨stored, fit⟩ := Cache.mem_nearest near
  exact ⟨found, stored, of_decide_eq_true fit, passed, trimmed⟩

theorem findCore_some {cores : Cache Core} {key : Binary64} {target : Expr} {k : Nat} {t : Tally}
    {c : Core} (h : (findCore cores key target k t).1 = some c) :
    ∃ found ∈ cores.entries, found.payload = c ∧ c.isContainedIn target = true := by
  obtain ⟨mem, contained⟩ := firstCore_some h
  obtain ⟨found, near, rfl⟩ := List.mem_map.mp (List.mem_filter.mp mem).1
  exact ⟨found, (Cache.mem_nearest near).1, rfl, contained⟩

end Lookup

end Reprise
