import Reprise.Proofs.Answer.Core
import Reprise.Proofs.Expr.Conjuncts
import Reprise.Proofs.Solver.Enumeration
import Reprise.Solver.Minimise

/-!
What the deletion of clauses keeps: the clauses that are left are conjuncts of the constraint, they
cannot hold together, and each of them was needed for that beside others that can.
-/
set_option autoImplicit false

namespace Reprise

namespace Solver

/-- Nowhere within the bounds all of the clauses stand. -/
def Contradictory (clauses : List Expr) : Prop :=
  ∀ read : Variable → Int64, (∀ c ∈ clauses, ∀ v ∈ c.vars, v.admits (read v) = true) →
    ¬ ∀ c ∈ clauses, c.Stands read

/-- Everywhere within the bounds one of the clauses fails. -/
def Refuted (clauses : List Expr) : Prop :=
  ∀ read : Variable → Int64, (∀ c ∈ clauses, ∀ v ∈ c.vars, v.admits (read v) = true) →
    ∃ c ∈ clauses, c.Fails read

theorem Refuted.contradictory {clauses : List Expr} (h : Refuted clauses) : Contradictory clauses := by
  intro read within stand
  obtain ⟨c, mem, fails⟩ := h read within
  exact Expr.not_fails_of_stands (stand c mem) fails

theorem Refuted.perm {clauses clauses' : List Expr} (h : Refuted clauses)
    (perm : clauses.Perm clauses') : Refuted clauses' := by
  intro read within
  obtain ⟨c, mem, fails⟩ := h read fun c mem => within c (perm.mem_iff.mp mem)
  exact ⟨c, perm.mem_iff.mp mem, fails⟩

theorem refuted_of_conjunction {clauses : List Expr} {e : Expr} {budget : Nat}
    (conj : Expr.conjunction clauses = some e) (h : findModel budget e = .ok none) :
    Refuted clauses := by
  intro read within
  refine Expr.exists_fails_of_conjunction conj ((findModel_none h).2 read fun v mem => ?_)
  obtain ⟨c, hc, hv⟩ := (Expr.mem_vars_conjunction conj).mp mem
  exact within c hc v hv

theorem refuted_conjuncts {e : Expr} {budget : Nat} (h : findModel budget e = .ok none) :
    Refuted e.conjuncts := by
  intro read within
  refine Expr.exists_conjunct_fails ((findModel_none h).2 read fun v mem => ?_)
  obtain ⟨c, hc, hv⟩ := Expr.mem_vars_iff_conjuncts.mp mem
  exact within c hc v hv

/-- With some other clauses it cannot hold, though these can hold together. -/
def Needed (clause : Expr) : Prop :=
  ∃ (others : List Expr) (read : Variable → Int64), Refuted (clause :: others) ∧
    ∀ c ∈ others, c.Holds read ∧ ∀ v ∈ c.vars, v.admits (read v) = true

theorem needed_alone {clause : Expr} (h : Refuted [clause]) : Needed clause :=
  ⟨[], fun _ => 0, h, nofun⟩

/-- Somewhere within the bounds all of the clauses hold. -/
def Together (clauses : List Expr) : Prop :=
  ∃ read : Variable → Int64, ∀ c ∈ clauses, c.Holds read ∧ ∀ v ∈ c.vars, v.admits (read v) = true

theorem together_of_findModel {e : Expr} {clauses : List Expr} {budget : Nat} {m : Model}
    (conj : Expr.conjunction clauses = some e) (found : findModel budget e = .ok (some m)) :
    Together clauses := by
  obtain ⟨keys, within, sat⟩ := findModel_some found
  have sorts := (findModel_eq_ok found).1
  have assigned := Expr.assignedBy_of_inBounds within fun v mem => keys ▸ mem
  have holds := Expr.holds_of_conjunction conj (Expr.satisfies_eq_ok_true.mp sat)
  refine ⟨m.intView, fun c mem => ⟨holds c mem, fun v hv => ?_⟩⟩
  have known : v ∈ e.vars := (Expr.mem_vars_conjunction conj).mpr ⟨c, mem, hv⟩
  exact assigned.admits known (sorts v known)

theorem needed_of_findModel {clause e : Expr} {others : List Expr} {budget : Nat} {m : Model}
    (h : Refuted (clause :: others)) (conj : Expr.conjunction others = some e)
    (found : findModel budget e = .ok (some m)) : Needed clause := by
  obtain ⟨read, hold⟩ := together_of_findModel conj found
  exact ⟨others, read, h, hold⟩

def completed (clauses : List Expr) (read : Variable → Int64) (v : Variable) : Int64 :=
  if ∃ c ∈ clauses, v ∈ c.vars then read v else v.lower

theorem completed_of_mem {clauses : List Expr} {c : Expr} {v : Variable} (mem : c ∈ clauses)
    (hv : v ∈ c.vars) (read : Variable → Int64) : completed clauses read v = read v :=
  if_pos ⟨c, mem, hv⟩

theorem admits_completed {clauses : List Expr} {read : Variable → Int64} {v : Variable}
    (within : ∀ c ∈ clauses, v ∈ c.vars → v.admits (read v) = true) (nonempty : v.domainSize ≠ 0) :
    v.admits (completed clauses read v) = true := by
  by_cases used : ∃ c ∈ clauses, v ∈ c.vars
  · obtain ⟨c, mem, hv⟩ := used
    rw [completed_of_mem mem hv]
    exact within c mem hv
  · have lowest : completed clauses read v = v.lower + Int64.ofNat 0 :=
      (if_neg used).trans (Int64.add_zero _).symm
    exact Variable.admits_iff_offset.mpr ⟨0, Nat.pos_of_ne_zero nonempty, lowest⟩

/-- A variable or constant fails nowhere, so only a variable without any value can be needed. -/
theorem Needed.domain_of_leaf {clause : Expr} (h : Needed clause) (leaf : clause.isOperation = false) :
    ∃ v ∈ clause.vars, v.domainSize = 0 := by
  obtain ⟨others, read, refuted, hold⟩ := h
  refine Classical.byContradiction fun values => ?_
  have within : ∀ c ∈ clause :: others, ∀ v ∈ c.vars, v.admits (completed others read v) = true := by
    intro c mem v hv
    cases mem with
    | head =>
      refine admits_completed (fun c' mem' hv' => (hold c' mem').2 v hv') fun empty => ?_
      exact values ⟨v, hv, empty⟩
    | tail _ other =>
      rw [completed_of_mem other hv]
      exact (hold c other).2 v hv
  obtain ⟨c, mem, fails⟩ := refuted _ within
  cases mem with
  | head => exact Expr.not_fails_leaf leaf fails
  | tail _ other =>
    have agree : ∀ v ∈ c.vars, completed others read v = read v := fun v hv =>
      completed_of_mem other hv read
    have holds := (Expr.holds_congr agree).mpr (hold c other).1
    exact Expr.not_fails_of_stands (Or.inl holds) fails

theorem deleteFrom_refuted {budget : Nat} {needed pending left : List Expr}
    (h : deleteFrom budget needed pending = .ok left) (together : Refuted (needed ++ pending)) :
    Refuted left ∧ ∀ c ∈ left, c ∈ needed ∨ c ∈ pending ∧ Needed c := by
  induction pending generalizing needed with
  | nil =>
    cases h
    rw [List.append_nil] at together
    exact ⟨together, fun c hc => Or.inl hc⟩
  | cons clause rest ih =>
    have first := together.perm List.perm_middle
    rw [deleteFrom] at h
    split at h
    · rename_i alone
      cases h
      have none_else : needed ++ rest = [] := Expr.conjunction_eq_none.mp alone
      rw [none_else] at first
      refine ⟨together, fun c hc => Or.inr ?_⟩
      have same : c = clause := by
        have mem := List.perm_middle.mem_iff.mp hc
        rw [none_else] at mem
        exact List.mem_singleton.mp mem
      rw [same]
      exact ⟨List.mem_cons_self, needed_alone first⟩
    · rename_i others conj
      split at h
      · cases h
      · rename_i none_found
        obtain ⟨result, kept⟩ := ih h (refuted_of_conjunction conj none_found)
        exact ⟨result, fun c hc => (kept c hc).imp id fun later =>
          ⟨List.mem_cons_of_mem _ later.1, later.2⟩⟩
      · rename_i m found
        obtain ⟨result, kept⟩ := ih h (by simpa using together)
        refine ⟨result, fun c hc => ?_⟩
        cases kept c hc with
        | inl earlier =>
          cases List.mem_append.mp earlier with
          | inl before => exact Or.inl before
          | inr here =>
            rw [List.mem_singleton.mp here]
            exact Or.inr ⟨List.mem_cons_self, needed_of_findModel first conj found⟩
        | inr later => exact Or.inr ⟨List.mem_cons_of_mem _ later.1, later.2⟩

theorem neededClauses_refuted {budget : Nat} {e : Expr} {left : List Expr}
    (unsat : findModel budget e = .ok none) (h : neededClauses budget e = .ok left) :
    Refuted left ∧ ∀ c ∈ left, c ∈ e.conjuncts ∧ Needed c := by
  obtain ⟨refuted, kept⟩ := deleteFrom_refuted h (refuted_conjuncts unsat)
  exact ⟨refuted, fun c hc => (kept c hc).resolve_left List.not_mem_nil⟩

theorem solve_eq_ok {budget : Nat} {e : Expr} {outcome : Outcome} (h : solve budget e = .ok outcome) :
    (∃ m, findModel budget e = .ok (some m) ∧ outcome = .ofModel m) ∨
      ∃ left, findModel budget e = .ok none ∧ neededClauses budget e = .ok left ∧
        outcome = .ofCore (Core.ofList left) := by
  rw [solve] at h
  split at h
  · cases h
  · rename_i m found
    cases h
    exact Or.inl ⟨m, found, rfl⟩
  · rename_i none_found
    rw [minimiseCore] at h
    cases left_eq : neededClauses budget e with
    | error f =>
      rw [left_eq] at h
      cases h
    | ok left =>
      rw [left_eq] at h
      cases h
      exact Or.inr ⟨left, none_found, rfl, rfl⟩

end Solver

end Reprise
