import Reprise.Proofs.Distance.Probe

/-!
The table of distances. It knows expressions by their texts and records the distance of the first
expression of each text.
-/
set_option autoImplicit false

namespace Reprise

namespace DeltaTable

variable {references : List Int64} {asked : List Expr} {t : DeltaTable} {e : Expr}

/-- A distance is recorded under the text of its expression and never given up. -/
theorem get?_getOrCompute (e' : Expr) : (t.getOrCompute e references).2.get? e' =
    if e'.canonical = e.canonical then (t.get? e).or (SatDelta.compute e references).toOption
    else t.get? e' := by
  obtain ⟨delta, computed⟩ := SatDelta.exists_compute e references
  simp only [getOrCompute, computed]
  split
  · rename_i recorded
    by_cases same : e'.canonical = e.canonical
    · rw [if_pos same, get?, get?, same, recorded]
      rfl
    · rw [if_neg same]
  · rename_i absent
    by_cases same : e'.canonical = e.canonical
    · rw [if_pos same, get?, get?, same, absent]
      exact OrderedMap.get?_insert_self _ _ _
    · rw [if_neg same]
      exact OrderedMap.get?_insert_of_ne _ same _

end DeltaTable

end Reprise
