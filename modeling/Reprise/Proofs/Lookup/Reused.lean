import Reprise.Proofs.Expr.Bounds
import Reprise.Proofs.Lookup.Counters

/-!
What is left of a cached model that answers a query. The whole model is tested and then cut down to
the query's number of variables, in variable order: a model that assigns variables foreign to the
query may lose those the query is about.
-/
set_option autoImplicit false

namespace Reprise

namespace Model

variable {m : Model} {n : Nat} {v : Variable}

theorem get?_of_trimmed {c : Constant} (h : (m.trimmed n).get? v = some c) : m.get? v = some c :=
  get?_eq_some_iff.mpr (List.mem_of_mem_take (get?_eq_some_iff.mp h))

/-- The model reads the variable as a number other than zero, and without what is cut off it does
not have the variable. -/
structure Loses (m : Model) (n : Nat) (v : Variable) : Prop where
  cut : (m.trimmed n).get? v = none
  read : m.intView v ≠ 0

theorem Loses.size_lt (h : m.Loses n v) : n < m.size := by
  refine Nat.lt_of_not_le fun enough => ?_
  have whole : m.trimmed n = m := trimmed_of_size_le enough
  have absent := h.cut
  rw [whole] at absent
  exact h.read (by rw [intView, absent]; rfl)

theorem intView_trimmed (kept : ¬ m.Loses n v) : (m.trimmed n).intView v = m.intView v := by
  cases found : (m.trimmed n).get? v with
  | some c => rw [intView, intView, found, get?_of_trimmed found]
  | none =>
    have zero : m.intView v = 0 := Decidable.byContradiction fun read => kept ⟨found, read⟩
    rw [zero, intView, found]
    rfl

end Model

theorem Expr.evaluate_trimmed {e : Expr} {m : Model} {n : Nat} (kept : ∀ v ∈ e.vars, ¬ m.Loses n v) :
    e.evaluate (m.trimmed n) = e.evaluate m :=
  evaluateWith_congr fun v mem => Model.intView_trimmed (kept v mem)

namespace Lookup

/-- The model found has at most the query's number of assignments and comes from an entry under
which the query holds. The query holds under what is left of it, unless the entry has more
assignments than its size says and a variable of the query was among those cut off. -/
theorem findModel_satisfies_unless_cut {models : Cache Model} {key : Binary64} {target : Expr}
    {size k : Nat} {t : Tally} {m : Model}
    (h : (findModel models key target size k t).1 = .ok (some m)) :
    m.size ≤ size ∧ ∃ found ∈ models.entries, found.size ≤ size ∧
      target.satisfies found.payload = .ok true ∧ m = found.payload.trimmed size ∧
      (target.satisfies m = .ok true ∨
        found.size < found.payload.size ∧ ∃ v ∈ target.vars, found.payload.Loses size v) := by
  obtain ⟨found, stored, fit, sat, t', trimmed⟩ := findModel_some h
  rw [trim_fst] at trimmed
  subst trimmed
  have bound : (found.payload.trimmed size).size ≤ size := by
    rw [Model.size_trimmed]
    exact Nat.min_le_left ..
  refine ⟨bound, found, stored, fit, sat, rfl, ?_⟩
  by_cases lost : ∃ v ∈ target.vars, found.payload.Loses size v
  · obtain ⟨v, mem, loses⟩ := lost
    exact Or.inr ⟨Nat.lt_of_le_of_lt fit loses.size_lt, v, mem, loses⟩
  · left
    rw [Expr.satisfies, Expr.evaluate_trimmed fun v mem loses => lost ⟨v, mem, loses⟩]
    exact sat

section Samples

def area : Variable := ⟨"area", .int, 0, 10⟩

def zone : Variable := ⟨"zone", .int, 0, 10⟩

def areaAndZone : Model := .ofList [(area, .int 3), (zone, .int 7)]

def oversized : Cache Model := Cache.empty.insert ⟨0, 1, areaAndZone⟩

/-- The first variable is kept. -/
theorem area_is_kept :
    let target : Expr := .binary .eq (.var area) (.int 3)
    let left : Model := .ofList [(area, .int 3)]
    (findModel oversized 0 target 1 10 .empty).1 = .ok (some left) ∧ left.size ≤ 1 ∧
      target.satisfies left = .ok true := by
  intro target left
  have found : (findModel oversized 0 target 1 10 .empty).1 = .ok (some left) :=
    eq_ok_of_toOption (by decide +kernel)
  obtain ⟨bound, entry, stored, -, -, trimmed, holds⟩ := findModel_satisfies_unless_cut found
  refine ⟨found, bound, ?_⟩
  cases holds with
  | inl sat => exact sat
  | inr cut =>
    obtain ⟨-, v, mem, loses⟩ := cut
    have same : v = area := by simpa [target, Expr.int] using mem
    have absent := loses.cut
    rw [← trimmed, same] at absent
    exact absurd absent (by decide +kernel)

/-- The second variable is cut off, and the query does not hold under what is left. -/
theorem zone_is_cut :
    ¬ ∀ (models : Cache Model) (key : Binary64) (target : Expr) (size k : Nat) (t : Tally) (m : Model),
      (findModel models key target size k t).1 = .ok (some m) →
        target.satisfies m = .ok true ∧ m.size ≤ size := by
  intro claim
  let target : Expr := .binary .eq (.var zone) (.int 7)
  let left : Model := .ofList [(area, .int 3)]
  have found : (findModel oversized 0 target 1 10 .empty).1 = .ok (some left) :=
    eq_ok_of_toOption (by decide +kernel)
  have untrue : target.satisfies left = .ok false := eq_ok_of_toOption (by decide +kernel)
  have sat := (claim _ _ _ _ _ _ _ found).1
  rw [untrue] at sat
  cases sat

end Samples

end Lookup

end Reprise
