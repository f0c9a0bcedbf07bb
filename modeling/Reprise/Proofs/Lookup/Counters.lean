import Reprise.Proofs.Lookup.Candidates
import Reprise.Proofs.Tally.Balanced

/-!
What a lookup counts: the candidates that failed, and one that is taken.
-/
set_option autoImplicit false

namespace Reprise

theorem Model.size_trimmed (m : Model) (n : Nat) : (m.trimmed n).size = min n m.size :=
  List.length_take ..

namespace Lookup

def takenModel (size : Nat) (m : Model) : List Counter :=
  .modelsReused :: if m.size < size then [.cacheInconsistencies] else []

@[simp] theorem mem_takenModel {size : Nat} {m : Model} {c : Counter} :
    c ∈ takenModel size m ↔ c = .modelsReused ∨ m.size < size ∧ c = .cacheInconsistencies := by
  rw [takenModel]
  split <;> simp [*]

theorem count_takenModel (size : Nat) (m : Model) (c : Counter) :
    (takenModel size m).count c = [Counter.modelsReused].count c +
      if m.size < size then [Counter.cacheInconsistencies].count c else 0 := by
  have apart : takenModel size m = [.modelsReused] ++
      if m.size < size then [.cacheInconsistencies] else [] := rfl
  rw [apart, List.count_append]
  split <;> rfl

theorem trim_tally (m : Model) (size : Nat) (t : Tally) :
    (trim m size (t.bump .modelsReused)).2 =
      t.bumpAll (takenModel size (trim m size (t.bump .modelsReused)).1) := by
  rw [trim]
  split
  · rename_i small
    rw [takenModel, if_pos small]
    rfl
  · rename_i enough
    have exact : ¬ (m.trimmed size).size < size := by
      rw [Model.size_trimmed]
      omega
    rw [takenModel, if_neg exact]
    rfl

theorem firstModel_tally (target : Expr) (size : Nat) (candidates : List Model) (t : Tally) :
    ∃ n, (firstModel target size candidates t).2 = t.bumpAll (List.replicate n .modelsTested ++
      match (firstModel target size candidates t).1 with
      | .ok (some m) => takenModel size m
      | _ => []) := by
  induction candidates generalizing t with
  | nil => exact ⟨0, rfl⟩
  | cons m rest ih =>
    rw [firstModel]
    split
    · exact ⟨0, trim_tally m size t⟩
    · obtain ⟨n, later⟩ := ih (t.bump .modelsTested)
      exact ⟨n + 1, later⟩
    · obtain ⟨n, later⟩ := ih (t.bump .modelsTested)
      exact ⟨n + 1, later⟩
    · exact ⟨0, rfl⟩

theorem firstCore_tally (target : Expr) (candidates : List Core) (t : Tally) :
    ∃ n, (firstCore target candidates t).2 = t.bumpAll (List.replicate n .coresTested ++
      if (firstCore target candidates t).1.isSome then [.coresReused] else []) := by
  induction candidates generalizing t with
  | nil => exact ⟨0, rfl⟩
  | cons c rest ih =>
    rw [firstCore]
    split
    · exact ⟨1, rfl⟩
    · obtain ⟨n, later⟩ := ih (t.bump .coresTested)
      exact ⟨n + 1, later⟩

theorem findModel_tally (models : Cache Model) (key : Binary64) (target : Expr) (size k : Nat) (t : Tally) :
    ∃ n, (findModel models key target size k t).2 = t.bumpAll (List.replicate n .modelsTested ++
      match (findModel models key target size k t).1 with
      | .ok (some m) => takenModel size m
      | _ => []) :=
  firstModel_tally ..

theorem findCore_tally (cores : Cache Core) (key : Binary64) (target : Expr) (k : Nat) (t : Tally) :
    ∃ n, (findCore cores key target k t).2 = t.bumpAll (List.replicate n .coresTested ++
      if (findCore cores key target k t).1.isSome then [.coresReused] else []) :=
  firstCore_tally ..

end Lookup

end Reprise
