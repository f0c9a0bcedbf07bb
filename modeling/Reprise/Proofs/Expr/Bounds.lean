import Reprise.Proofs.Expr.Eval

/-!
Assignments within the declared bounds, and what it means for a constraint to hold somewhere or
nowhere on them. Whole numbers are values of every sort; a real is a value of real variables only.
-/
set_option autoImplicit false

namespace Reprise

namespace Variable

/-- Whether a constant is a value of the variable within its bounds. -/
def covers (v : Variable) : Constant → Bool
  | .int n => v.admits n
  | .bitVec n _ => v.admits n
  | .real r =>
    v.sort = .real && r.isFinite && v.lower.toInt * Binary64.unitsPerOne ≤ r.units
      && r.units ≤ v.upper.toInt * Binary64.unitsPerOne

theorem admits_iff {v : Variable} {n : Int64} :
    v.admits n = true ↔ v.lower.toInt ≤ n.toInt ∧ n.toInt ≤ v.upper.toInt := by
  simp [admits, Int64.le_iff_toInt_le]

theorem covers_eq_admits {v : Variable} {c : Constant} {n : Int64} (h : c.asInt = some n) :
    v.covers c = v.admits n := by
  cases c with
  | int m => cases h; rfl
  | bitVec m width => cases h; rfl
  | real r => cases h

theorem asInt_of_covers {v : Variable} {c : Constant} (not_real : v.sort ≠ .real)
    (h : v.covers c = true) : ∃ n, c.asInt = some n ∧ v.admits n = true := by
  cases c with
  | int n => exact ⟨n, rfl, h⟩
  | bitVec n width => exact ⟨n, rfl, h⟩
  | real r => simp [covers, not_real] at h

end Variable

namespace Model

/-- Every value is a number within the bounds of its variable. -/
def InBounds (m : Model) : Prop :=
  ∀ p ∈ m.pairs, ∃ n, p.2.asInt = some n ∧ p.1.admits n = true

theorem get?_eq_some_iff {m : Model} {v : Variable} {c : Constant} :
    m.get? v = some c ↔ (v, c) ∈ m.pairs := OrderedMap.get?_eq_some_iff

theorem exists_get? {m : Model} {v : Variable} (h : v ∈ m.assignments.keys) :
    ∃ c, m.get? v = some c := Option.isSome_iff_exists.mp (OrderedMap.get?_isSome_iff.mpr h)

theorem intView_of_get? {m : Model} {v : Variable} {c : Constant} {n : Int64}
    (found : m.get? v = some c) (h : c.asInt = some n) : m.intView v = n := by
  simp [intView, found, h]

def tabulate (vars : List Variable) (value : Variable → Constant) : Model :=
  .ofList (vars.map fun v => (v, value v))

section Tabulate

variable {vars : List Variable} (ordered : vars.Pairwise fun a b => compare a b = .lt)
  (value : Variable → Constant)

include ordered

theorem pairs_tabulate : (tabulate vars value).pairs = vars.map fun v => (v, value v) :=
  OrderedMap.entries_ofList (List.pairwise_map.mpr ordered)

theorem keys_tabulate : (tabulate vars value).assignments.keys = vars := by
  rw [OrderedMap.keys, ← pairs, pairs_tabulate ordered, List.map_map]
  exact List.map_id vars

theorem get?_tabulate {v : Variable} (mem : v ∈ vars) :
    (tabulate vars value).get? v = some (value v) := by
  rw [get?_eq_some_iff, pairs_tabulate ordered]
  exact List.mem_map_of_mem mem

end Tabulate

end Model

namespace Expr

/-- Every variable of the constraint has a value within its bounds. -/
def AssignedBy (e : Expr) (m : Model) : Prop :=
  ∀ v ∈ e.vars, ∃ c, m.get? v = some c ∧ v.covers c = true

/-- No assignment within the bounds makes the constraint true. -/
def Unsatisfiable (e : Expr) : Prop := ∀ m, e.AssignedBy m → e.satisfies m ≠ .ok true

/-- Some assignment of exactly the variables, each within its bounds, makes the constraint true. -/
def Satisfiable (e : Expr) : Prop :=
  ∃ m, m.assignments.keys = e.vars ∧ e.AssignedBy m ∧ e.satisfies m = .ok true

theorem assignedBy_of_inBounds {e : Expr} {m : Model} (h : m.InBounds)
    (keys : ∀ v ∈ e.vars, v ∈ m.assignments.keys) : e.AssignedBy m := by
  intro v mem
  obtain ⟨c, found⟩ := Model.exists_get? (keys v mem)
  obtain ⟨n, asInt, within⟩ := h (v, c) (Model.get?_eq_some_iff.mp found)
  exact ⟨c, found, by rw [Variable.covers_eq_admits asInt, within]⟩

theorem AssignedBy.admits {e : Expr} {m : Model} (h : e.AssignedBy m) {v : Variable}
    (mem : v ∈ e.vars) (not_real : v.sort ≠ .real) : v.admits (m.intView v) = true := by
  obtain ⟨c, found, covered⟩ := h v mem
  obtain ⟨n, asInt, within⟩ := Variable.asInt_of_covers not_real covered
  rw [Model.intView_of_get? found asInt]
  exact within

theorem satisfiable_of_covers {e : Expr} {m : Model} (sat : e.satisfies m = .ok true)
    (within : ∀ v ∈ e.vars, v.covers ((m.get? v).getD (.int 0)) = true) : e.Satisfiable := by
  let value : Variable → Constant := fun v => (m.get? v).getD (.int 0)
  have given : ∀ v ∈ e.vars, (Model.tabulate e.vars value).get? v = some (value v) :=
    fun v mem => Model.get?_tabulate e.vars_increasing value mem
  have reads : ∀ v ∈ e.vars, m.intView v = (Model.tabulate e.vars value).intView v := by
    intro v mem
    rw [Model.intView, Model.intView, given v mem]
    cases found : m.get? v with
    | none => simp [value, found, Constant.asInt]
    | some c => simp [value, found]
  refine ⟨.tabulate e.vars value, Model.keys_tabulate e.vars_increasing value, ?_, ?_⟩
  · intro v mem
    exact ⟨value v, given v mem, within v mem⟩
  · rw [satisfies_eq_ok_true] at sat ⊢
    exact (holds_congr reads).mp sat

theorem satisfiable_of_inBounds {e : Expr} {m : Model} (h : m.InBounds) (sat : e.satisfies m = .ok true)
    (zeros : ∀ v ∈ e.vars, m.get? v = none → v.admits 0 = true) : e.Satisfiable := by
  refine satisfiable_of_covers sat fun v mem => ?_
  cases found : m.get? v with
  | none => exact zeros v mem found
  | some c =>
    obtain ⟨n, asInt, within⟩ := h (v, c) (Model.get?_eq_some_iff.mp found)
    rw [Option.getD_some, Variable.covers_eq_admits asInt]
    exact within

end Expr

end Reprise
