import Reprise.Proofs.Expr.Kinds
import Reprise.Proofs.Ordered.Sorted
import Reprise.Proofs.Solver.Lexicographic
import Reprise.Proofs.Solver.Minimise

/-!
What one pass of deletion comes to. The clauses that are left cannot hold together, and without any one
of them the others can: what some clauses allow, fewer of them allow.
-/
set_option autoImplicit false

namespace Reprise

namespace Solver

section Search

variable {e : Expr} {budget : Nat}

theorem findModel_eq_none (not_real : ∀ v ∈ e.vars, v.sort ≠ .real)
    (within : assignmentCount e.vars ≤ budget)
    (fails : ∀ read : Variable → Int64, (∀ v ∈ e.vars, v.admits (read v) = true) → e.Fails read) :
    findModel budget e = .ok none := by
  have failed : ∀ values ∈ allValues e.vars, test e (modelAt e.vars values) = .ok false := by
    intro values mem
    have assigned := assignedBy_of_exactly (assignedExactly_modelAt mem not_real)
    refine test_eq_ok_false.mpr (Expr.passedOver_iff.mpr (fails _ fun v known => ?_))
    exact assigned.admits known (not_real v known)
  obtain ⟨visited, answer, scanned, same⟩ := findModel_scanned not_real within
  rw [same]
  cases scanned with
  | none _ => rfl
  | @passed before after values split _ passed =>
    rw [failed values (by simp [split])] at passed
    cases passed
  | @stopped before after values f split _ fault =>
    rw [failed values (by simp [split])] at fault
    cases fault

end Search

section Deletion

theorem Together.mono {clauses clauses' : List Expr} (h : Together clauses)
    (sub : ∀ c ∈ clauses', c ∈ clauses) : Together clauses' := by
  obtain ⟨read, hold⟩ := h
  exact ⟨read, fun c mem => hold c (sub c mem)⟩

theorem Together.satisfiable {clauses : List Expr} {e : Expr} (h : Together clauses)
    (conj : Expr.conjunction clauses = some e) : e.Satisfiable := by
  obtain ⟨read, hold⟩ := h
  let m := Model.tabulate e.vars fun v => .int (read v)
  have given : ∀ v ∈ e.vars, m.get? v = some (.int (read v)) := fun v mem =>
    Model.get?_tabulate e.vars_increasing _ mem
  have reads : ∀ v ∈ e.vars, read v = m.intView v := fun v mem =>
    (Model.intView_of_get? (given v mem) rfl).symm
  have holds := Expr.holds_conjunction conj fun c mem => (hold c mem).1
  refine ⟨m, Model.keys_tabulate e.vars_increasing _, fun v mem => ?_, ?_⟩
  · obtain ⟨c, hc, hv⟩ := (Expr.mem_vars_conjunction conj).mp mem
    exact ⟨.int (read v), given v mem, (hold c hc).2 v hv⟩
  · exact Expr.satisfies_eq_ok_true.mpr ((Expr.holds_congr reads).mp holds)

variable {budget : Nat} {needed pending left : List Expr}

theorem deleteFrom_sublist (h : deleteFrom budget needed pending = .ok left) :
    left.Sublist (needed ++ pending) := by
  fun_induction deleteFrom budget needed pending with
  | case1 needed =>
    cases h
    rw [List.append_nil]
  | case2 needed clause rest alone =>
    cases h
    exact List.Sublist.refl _
  | case3 needed clause rest others conj f fault => cases h
  | case4 needed clause rest others conj none_found ih =>
    exact (ih h).trans ((List.sublist_cons_self clause rest).append_left needed)
  | case5 needed clause rest others conj m found ih =>
    simpa using ih h

theorem deleteFrom_searched (h : deleteFrom budget needed pending = .ok left) :
    left = needed ++ pending ∨
      ∃ e, Expr.conjunction left = some e ∧ findModel budget e = .ok none := by
  fun_induction deleteFrom budget needed pending with
  | case1 needed =>
    cases h
    exact Or.inl (List.append_nil _).symm
  | case2 needed clause rest alone =>
    cases h
    exact Or.inl rfl
  | case3 needed clause rest others conj f fault => cases h
  | case4 needed clause rest others conj none_found ih =>
    cases ih h with
    | inl all =>
      subst all
      exact Or.inr ⟨others, conj, none_found⟩
    | inr searched => exact Or.inr searched
  | case5 needed clause rest others conj m found ih =>
    simpa using ih h

/-- Clauses found to be needed stay so: what is deleted later leaves fewer others. -/
theorem deleteFrom_minimal (h : deleteFrom budget needed pending = .ok left)
    (apart : ∀ i < needed.length, Together (needed.eraseIdx i ++ pending)) (several : 2 ≤ left.length) :
    ∀ i < left.length, Together (left.eraseIdx i) := by
  fun_induction deleteFrom budget needed pending with
  | case1 needed =>
    cases h
    simpa using apart
  | case2 needed clause rest alone =>
    cases h
    have single := Expr.conjunction_eq_none.mp alone
    rw [List.length_append, List.length_cons] at several
    have none_else := congrArg List.length single
    rw [List.length_append, List.length_nil] at none_else
    omega
  | case3 needed clause rest others conj f fault => cases h
  | case4 needed clause rest others conj none_found ih =>
    -- fewer others can still hold together
    refine ih h fun i hi => (apart i hi).mono fun c mem => ?_
    exact ((List.sublist_cons_self clause rest).append_left _).subset mem
  | case5 needed clause rest others conj m found ih =>
    refine ih h fun i hi => ?_
    rw [List.length_append, List.length_singleton] at hi
    cases Nat.lt_or_eq_of_le (Nat.le_of_lt_succ hi) with
    | inl before =>
      rw [List.eraseIdx_append_of_lt_length before, List.append_assoc]
      exact apart i before
    | inr last =>
      -- without the new one the others have just been found to hold together
      rw [last, List.eraseIdx_append_of_length_le (Nat.le_refl _), Nat.sub_self, List.eraseIdx_cons_zero,
        List.append_nil]
      exact together_of_findModel conj found

end Deletion

section NeededClauses

variable {budget : Nat} {e : Expr} {left : List Expr}

theorem together_of_neededClauses (h : neededClauses budget e = .ok left) (several : 2 ≤ left.length) :
    ∀ i < left.length, Together (left.eraseIdx i) :=
  deleteFrom_minimal h nofun several

theorem kind_of_neededClauses (h : neededClauses budget e = .ok left) (several : 2 ≤ left.length) :
    ∀ c ∈ left, c.kind = .ok .bool := by
  intro c mem
  obtain ⟨i, hi, rfl⟩ := List.getElem_of_mem mem
  have other : ∃ j < left.length, i ≠ j := by
    by_cases zero : i = 0
    · exact ⟨1, several, by omega⟩
    · exact ⟨0, by omega, zero⟩
  obtain ⟨j, hj, apart⟩ := other
  obtain ⟨read, hold⟩ := together_of_neededClauses h several j hj
  exact Expr.kind_of_holds (hold _ (List.mem_eraseIdx_iff_getElem.mpr ⟨i, hi, apart, rfl⟩)).1

theorem findModel_conjuncts {whole : Expr} (unsat : findModel budget e = .ok none)
    (conj : Expr.conjunction e.conjuncts = some whole)
    (bools : 2 ≤ e.conjuncts.length → ∀ c ∈ e.conjuncts, c.kind = .ok .bool) :
    findModel budget whole = .ok none := by
  by_cases several : 2 ≤ e.conjuncts.length
  · have vars : whole.vars = e.vars := by
      refine Ascending.eq_of_mem_iff whole.vars_increasing e.vars_increasing fun v => ?_
      rw [Expr.mem_vars_conjunction conj, Expr.mem_vars_iff_conjuncts]
    obtain ⟨not_real, fails⟩ := findModel_none unsat
    refine findModel_eq_none (vars ▸ not_real) (vars ▸ (findModel_eq_ok unsat).2)
      fun read within => ?_
    -- each clause is true somewhere, so nothing but a division by zero can stop the whole
    refine Expr.fails_of_kind (Expr.kind_conjunction conj (bools several)) fun holds => ?_
    have holds_e := Expr.holds_iff_conjuncts.mpr (Expr.holds_of_conjunction conj holds)
    exact Expr.not_fails_of_stands (Or.inl holds_e) (fails read (vars ▸ within))
  · have some_conjunct := List.length_pos_iff.mpr e.conjuncts_ne_nil
    obtain ⟨c, single⟩ := List.length_eq_one_iff.mp (by omega : e.conjuncts.length = 1)
    rw [single, Expr.eq_of_conjuncts single] at conj
    cases conj
    exact unsat

theorem findModel_neededClauses (unsat : findModel budget e = .ok none)
    (h : neededClauses budget e = .ok left) :
    ∃ whole, Expr.conjunction left = some whole ∧ findModel budget whole = .ok none := by
  cases deleteFrom_searched h with
  | inr searched => exact searched
  | inl all =>
    rw [List.nil_append] at all
    subst all
    have nonempty := mt Expr.conjunction_eq_none.mp e.conjuncts_ne_nil
    obtain ⟨whole, conj⟩ := Option.ne_none_iff_exists'.mp nonempty
    exact ⟨whole, conj, findModel_conjuncts unsat conj (kind_of_neededClauses h)⟩

/-- The clauses that one pass of deletion ends with are conjuncts in their order, have no model
together, and the conjunction of all but one of them can be satisfied. -/
theorem neededClauses_minimal (unsat : findModel budget e = .ok none)
    (h : neededClauses budget e = .ok left) :
    left ≠ [] ∧ left.Sublist e.conjuncts ∧
      (∃ whole, Expr.conjunction left = some whole ∧ findModel budget whole = .ok none) ∧
        (2 ≤ left.length → ∀ i < left.length,
          ∃ others, Expr.conjunction (left.eraseIdx i) = some others ∧ others.Satisfiable) := by
  obtain ⟨whole, conj, searched⟩ := findModel_neededClauses unsat h
  have nonempty : left ≠ [] := by
    rintro rfl
    cases conj
  refine ⟨nonempty, deleteFrom_sublist h, ⟨whole, conj, searched⟩, fun several i hi => ?_⟩
  have some_left : left.eraseIdx i ≠ [] := by
    rw [← List.length_pos_iff, List.length_eraseIdx_of_lt hi]
    omega
  obtain ⟨others, conj'⟩ :=
    Option.ne_none_iff_exists'.mp (mt Expr.conjunction_eq_none.mp some_left)
  exact ⟨others, conj', (together_of_neededClauses h several i hi).satisfiable conj'⟩

end NeededClauses

section Samples

def level : Variable := ⟨"level", .int, 0, 5⟩

def spare : Variable := ⟨"spare", .int, 0, 1⟩

def levelHigh : Expr := .binary .gt (.var level) (.int 3)

def levelLow : Expr := .binary .lt (.var level) (.int 2)

/-- The irrelevant clause between the two that contradict each other is deleted. -/
theorem high_and_low_are_left :
    let e : Expr := .binary .and (.binary .and levelHigh (.binary .eq (.var spare) (.int 1))) levelLow
    neededClauses 100 e = .ok [levelHigh, levelLow] ∧
      (∃ whole, Expr.conjunction [levelHigh, levelLow] = some whole ∧ findModel 100 whole = .ok none) ∧
        levelHigh.Satisfiable ∧ levelLow.Satisfiable := by
  intro e
  have unsat : findModel 100 e = .ok none := eq_ok_of_toOption (by decide +kernel)
  have left : neededClauses 100 e = .ok [levelHigh, levelLow] := eq_ok_of_toOption (by decide +kernel)
  obtain ⟨-, -, refuted, apart⟩ := neededClauses_minimal unsat left
  obtain ⟨alone, conj, sat⟩ := apart (by decide) 1 (by decide)
  obtain ⟨alone', conj', sat'⟩ := apart (by decide) 0 (by decide)
  cases conj
  cases conj'
  exact ⟨left, refuted, sat, sat'⟩

end Samples

end Solver

end Reprise
