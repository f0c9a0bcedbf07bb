import Reprise.Proofs.Expr.Bounds
import Reprise.Solver.Search

/-!
What the search makes of one list of values, and how its loop goes on to the next. A test tells
solutions, assignments that are passed over and faults apart.
-/
set_option autoImplicit false

namespace Reprise

namespace Variable

theorem toInt_lower_add {lower upper : Int64} {i : Nat} (h : lower.toInt + i ≤ upper.toInt) :
    (lower + Int64.ofNat i).toInt = lower.toInt + i := by
  have low := lower.le_toInt
  have top := upper.toInt_lt
  have width : (Int64.size : Int) = 2 ^ 64 := rfl
  rw [Int64.toInt_add, Int64.toInt_ofNat', Int.add_bmod_bmod]
  exact Int.bmod_eq_of_le (by omega) (by omega)

/-- The values within the bounds are the first `domainSize` ones from the lower bound on. -/
theorem admits_iff_offset {v : Variable} {n : Int64} :
    v.admits n = true ↔ ∃ i < v.domainSize, n = v.lower + Int64.ofNat i := by
  rw [admits_iff, domainSize]
  constructor
  · rintro ⟨low, high⟩
    refine ⟨(n.toInt - v.lower.toInt).toNat, by omega, ?_⟩
    have inside : v.lower.toInt + (n.toInt - v.lower.toInt).toNat ≤ v.upper.toInt := by omega
    rw [← Int64.toInt_inj, toInt_lower_add inside]
    omega
  · rintro ⟨i, hi, rfl⟩
    have inside : v.lower.toInt + i ≤ v.upper.toInt := by omega
    rw [toInt_lower_add inside]
    omega

end Variable

namespace Expr

variable {e : Expr} {m : Model}

def PassedOver (e : Expr) (m : Model) : Prop :=
  e.satisfies m = .ok false ∨ ∃ op, e.satisfies m = .error (.divisionByZero op)

theorem passedOver_iff : e.PassedOver m ↔ e.Fails m.intView := by
  rw [PassedOver, Fails, satisfies, evaluate]
  cases e.evaluateWith m.intView with
  | error f => simp [truth]
  | ok value => cases value <;> simp [truth]

end Expr

namespace Solver

section Test

variable {e : Expr} {m : Model}

theorem test_eq_ok_true : test e m = .ok true ↔ e.satisfies m = .ok true := by
  rw [test]
  split <;> simp_all

theorem test_eq_ok_false : test e m = .ok false ↔ e.PassedOver m := by
  rw [test, Expr.PassedOver]
  split <;> simp_all

theorem test_eq_error {f : ExprFault} :
    test e m = .error f ↔ e.satisfies m = .error f ∧ ∀ op, f ≠ .divisionByZero op := by
  rw [test]
  split
  · simp [*]
  · rename_i op result
    rw [result]
    refine iff_of_false (by simp) fun h => ?_
    exact h.2 op (Except.error.inj h.1).symm
  · rename_i g not_zero result
    rw [result, Except.error.injEq]
    exact ⟨fun same => ⟨same, same ▸ not_zero⟩, fun h => h.1⟩

end Test

theorem literal_asInt (v : Variable) (n : Int64) : (literal v n).asInt = some n := by
  rw [literal]
  split <;> rfl

theorem modelAt_map (vars : List Variable) (read : Variable → Int64) :
    modelAt vars (vars.map read) = .tabulate vars fun v => literal v (read v) := by
  rw [modelAt, Model.tabulate, ← List.map_prod_left_eq_zip, List.map_map]
  rfl

section ModelAt

variable {vars : List Variable} (ordered : vars.Pairwise fun a b => compare a b = .lt)

include ordered

theorem intView_modelAt_map (read : Variable → Int64) {v : Variable} (mem : v ∈ vars) :
    (modelAt vars (vars.map read)).intView v = read v := by
  rw [modelAt_map]
  exact Model.intView_of_get? (Model.get?_tabulate ordered _ mem) (literal_asInt v (read v))

variable {values : List Int64} (same : vars.length = values.length)

include same

theorem pairs_modelAt :
    (modelAt vars values).pairs = (vars.zip values).map fun p => (p.1, literal p.1 p.2) := by
  have firsts : ((vars.zip values).map Prod.fst).Pairwise fun a b => compare a b = .lt := by
    rwa [List.map_fst_zip (Nat.le_of_eq same)]
  exact OrderedMap.entries_ofList (List.pairwise_map.mpr (List.pairwise_map.mp firsts))

theorem keys_modelAt : (modelAt vars values).assignments.keys = vars := by
  rw [OrderedMap.keys, ← Model.pairs, pairs_modelAt ordered same, List.map_map]
  exact List.map_fst_zip (Nat.le_of_eq same)

end ModelAt

section Loop

/-- The loop from one list of values on: the lists it visits, in turn, and its answer. -/
inductive Visits (e : Expr) (vars : List Variable) :
    List Int64 → List (List Int64) → Except ExprFault (Option Model) → Prop
  | stopped {values : List Int64} {f : ExprFault} : test e (modelAt vars values) = .error f →
    Visits e vars values [values] (.error f)
  | found {values : List Int64} : test e (modelAt vars values) = .ok true →
    Visits e vars values [values] (.ok (some (modelAt vars values)))
  | ended {values : List Int64} : test e (modelAt vars values) = .ok false →
    advance vars values = none → Visits e vars values [values] (.ok none)
  | next {values values' : List Int64} {visited : List (List Int64)}
    {answer : Except ExprFault (Option Model)} : test e (modelAt vars values) = .ok false →
    advance vars values = some values' → Visits e vars values' visited answer →
    Visits e vars values (values :: visited) answer

variable {e : Expr} {vars : List Variable} {values : List Int64}

theorem visits_search (e : Expr) (vars : List Variable) (values : List Int64) :
    ∃ visited, Visits e vars values visited (search e vars values) := by
  fun_induction search e vars values with
  | case1 values f fault => exact ⟨_, .stopped fault⟩
  | case2 values passed => exact ⟨_, .found passed⟩
  | case3 values failed last => exact ⟨_, .ended failed last⟩
  | case4 values failed values' advanced ih =>
    obtain ⟨visited, later⟩ := ih
    exact ⟨_, .next failed advanced later⟩

theorem Visits.unique {visited visited' : List (List Int64)}
    {answer answer' : Except ExprFault (Option Model)} (h : Visits e vars values visited answer)
    (h' : Visits e vars values visited' answer') : visited' = visited ∧ answer' = answer := by
  induction h generalizing visited' with
  | stopped fault => cases h' <;> simp_all
  | found passed => cases h' <;> simp_all
  | ended failed last => cases h' <;> simp_all
  | next failed advanced later ih =>
    cases h' with
    | next _ advanced' later' =>
      rw [advanced] at advanced'
      cases advanced'
      obtain ⟨rest, same⟩ := ih later'
      exact ⟨congrArg _ rest, same⟩
    | _ => simp_all

end Loop

section Counting

def counting (count : Nat) (v : Variable) : Option Nat :=
  if count * v.domainSize ≤ countLimit then some (count * v.domainSize) else none

theorem assignmentCount_eq (vars : List Variable) :
    assignmentCount vars = (vars.foldlM counting 1).getD countLimit := rfl

theorem counted_cons {v : Variable} {rest : List Variable} {count product : Nat} :
    (v :: rest).foldlM counting count = some product ↔
      count * v.domainSize ≤ countLimit ∧ rest.foldlM counting (count * v.domainSize) = some product := by
  rw [List.foldlM_cons, counting]
  split <;> simp [*]

theorem zero_of_counted {vars : List Variable} {count : Nat}
    (h : vars.foldlM counting count = some 0) : count = 0 ∨ ∃ v ∈ vars, v.domainSize = 0 := by
  induction vars generalizing count with
  | nil => exact Or.inl (Option.some.inj h)
  | cons v rest ih =>
    cases ih (counted_cons.mp h).2 with
    | inl zero =>
      exact (Nat.mul_eq_zero.mp zero).imp id fun empty => ⟨v, List.mem_cons_self, empty⟩
    | inr later =>
      obtain ⟨w, hw, empty⟩ := later
      exact Or.inr ⟨w, List.mem_cons_of_mem _ hw, empty⟩

theorem exists_domainSize_eq_zero {vars : List Variable} (h : assignmentCount vars = 0) :
    ∃ v ∈ vars, v.domainSize = 0 := by
  have limit : countLimit ≠ 0 := by decide
  rw [assignmentCount_eq, Option.getD_eq_iff] at h
  cases h with
  | inl counted => exact (zero_of_counted counted).resolve_left (by decide)
  | inr exceeded => exact absurd exceeded.2 limit

end Counting

section FindModel

variable {budget : Nat} {e : Expr}

theorem findModel_eq_ok {answer : Option Model} (h : findModel budget e = .ok answer) :
    (∀ v ∈ e.vars, v.sort ≠ .real) ∧ assignmentCount e.vars ≤ budget := by
  simp only [findModel] at h
  split at h
  · cases h
  · rename_i no_real
    have sorts : ∀ v ∈ e.vars, v.sort ≠ .real := fun v mem real => by
      simpa [real] using List.find?_eq_none.mp no_real v mem
    split at h
    · cases h
    · rename_i within
      exact ⟨sorts, Nat.not_lt.mp within⟩

/-- Within the budget the loop starts with the lower bounds, unless a domain is empty. -/
theorem findModel_eq (not_real : ∀ v ∈ e.vars, v.sort ≠ .real)
    (within : assignmentCount e.vars ≤ budget) : findModel budget e =
      if ∃ v ∈ e.vars, v.domainSize = 0 then .ok none
      else (search e e.vars (e.vars.map Variable.lower)).mapError .expr := by
  have no_real : (e.vars.find? fun v => v.sort = .real) = none :=
    List.find?_eq_none.mpr fun v mem => by simpa using not_real v mem
  simp only [findModel, no_real, if_neg (Nat.not_lt.mpr within), List.any_eq_true, decide_eq_true_eq]

end FindModel

end Solver

end Reprise
