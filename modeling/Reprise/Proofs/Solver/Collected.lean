import Reprise.Proofs.Solver.Minimal

/-!
The core that the clauses left by the deletion are collected in. It keeps one clause of each text. As no
clause left can be spared, it is unsatisfiable only if that loses none: two clauses may have one text and
still be about variables of other bounds.
-/
set_option autoImplicit false

namespace Reprise

namespace Core

/-- No assignment of the clauses' variables within their bounds makes all of the clauses true. -/
def Unsatisfiable (c : Core) : Prop :=
  ∀ m : Model, (∀ k ∈ c.clauses, k.AssignedBy m) → ¬ ∀ k ∈ c.clauses, k.satisfies m = .ok true

end Core

namespace Solver

theorem exists_lost {clauses : List Expr} (h : ¬ Core.TextsTell clauses) :
    ∃ l ∈ clauses, l ∉ (Core.ofList clauses).clauses := by
  by_contra kept
  push Not at kept
  exact h fun k hk l hl same => Core.textsTell_clauses _ k (kept k hk) l (kept l hl) same

theorem Together.not_unsatisfiable {c : Core} (h : Together c.clauses) : ¬ c.Unsatisfiable := by
  intro unsat
  cases conj : Expr.conjunction c.clauses with
  | none =>
    have empty : c.clauses = [] := Expr.conjunction_eq_none.mp conj
    exact unsat .empty (by simp [empty]) (by simp [empty])
  | some whole =>
    obtain ⟨m, -, assigned, sat⟩ := h.satisfiable conj
    have holds := Expr.holds_of_conjunction conj (Expr.satisfies_eq_ok_true.mp sat)
    refine unsat m (fun k mem v hv => ?_) fun k mem => Expr.satisfies_eq_ok_true.mpr (holds k mem)
    exact assigned v ((Expr.mem_vars_conjunction conj).mpr ⟨k, mem, hv⟩)

theorem two_le_length {clauses : List Expr} (h : ¬ Core.TextsTell clauses) : 2 ≤ clauses.length := by
  match clauses with
  | [] => exact absurd nofun h
  | [k] =>
    have tell : Core.TextsTell [k] := fun a ha b hb _ => by
      rw [List.mem_singleton.mp ha, List.mem_singleton.mp hb]
    exact absurd tell h
  | _ :: _ :: rest => exact Nat.le_add_left 2 rest.length

section Collecting

variable {budget : Nat} {e : Expr} {left : List Expr}

theorem unsatisfiable_of_textsTell (unsat : findModel budget e = .ok none)
    (h : neededClauses budget e = .ok left) (tell : Core.TextsTell left) :
    (Core.ofList left).Unsatisfiable := by
  obtain ⟨refuted, kept⟩ := neededClauses_refuted unsat h
  have conjunct : ∀ k ∈ (Core.ofList left).clauses, k ∈ e.conjuncts := fun k mem =>
    (kept k (Core.mem_clauses_ofList mem)).1
  intro m assigned sat
  obtain ⟨k, mem, fails⟩ := refuted m.intView fun k mem v hv =>
    (assigned k (Core.mem_ofList tell mem)).admits hv
      ((findModel_none unsat).1 v (Expr.mem_vars_iff_conjuncts.mpr ⟨k, (kept k mem).1, hv⟩))
  have holds := Expr.satisfies_eq_ok_true.mp (sat k (Core.mem_ofList tell mem))
  exact Expr.not_fails_of_stands (Or.inl holds) fails

theorem textsTell_of_unsatisfiable (h : neededClauses budget e = .ok left)
    (unsat : (Core.ofList left).Unsatisfiable) : Core.TextsTell left := by
  by_contra alike
  obtain ⟨l, mem, lost⟩ := exists_lost alike
  obtain ⟨i, hi, rfl⟩ := List.getElem_of_mem mem
  have others := together_of_neededClauses h (two_le_length alike) i hi
  refine (others.mono fun k stored => ?_).not_unsatisfiable unsat
  obtain ⟨j, hj, rfl⟩ := List.getElem_of_mem (Core.mem_clauses_ofList stored)
  refine List.mem_eraseIdx_iff_getElem.mpr ⟨j, hj, ?_, rfl⟩
  rintro rfl
  exact lost stored

/-- A core is made of conjuncts. It is unsatisfiable exactly if no two different clauses that the
deletion leaves have one text. -/
theorem minimiseCore_unsatisfiable_iff {core : Core} (unsat : findModel budget e = .ok none)
    (h : minimiseCore budget e = .ok core) :
    core.clauses ≠ [] ∧ (∀ k ∈ core.clauses, k ∈ e.conjuncts) ∧
      ∃ left, neededClauses budget e = .ok left ∧ (core.Unsatisfiable ↔ Core.TextsTell left) := by
  obtain ⟨left, needed, rfl⟩ : ∃ left, neededClauses budget e = .ok left ∧ Core.ofList left = core := by
    rw [minimiseCore] at h
    cases needed : neededClauses budget e with
    | error f =>
      rw [needed] at h
      cases h
    | ok left =>
      rw [needed] at h
      cases h
      exact ⟨left, rfl, rfl⟩
  refine ⟨?_, ?_, left, needed, textsTell_of_unsatisfiable needed,
    unsatisfiable_of_textsTell unsat needed⟩
  · obtain ⟨whole, conj, -⟩ := findModel_neededClauses unsat needed
    cases left with
    | nil => cases conj
    | cons c rest =>
      have first : c ∈ c :: rest := List.mem_cons_self
      obtain ⟨k, stored, -⟩ := Core.exists_clause_of_mem first
      exact List.ne_nil_of_mem stored
  · intro k stored
    exact (deleteFrom_sublist needed).subset (Core.mem_clauses_ofList stored)

end Collecting

section Samples

def narrow (value : Int64) : Variable := ⟨"x", .int, value, value⟩

def bit : Variable := ⟨"y", .int, 0, 1⟩

def equalsBit (value : Int64) : Expr := .binary .eq (.var (narrow value)) (.var bit)

/-- Both clauses are needed, and both have the text `x==y`. -/
def equalsBoth : Expr := .binary .and (equalsBit 0) (equalsBit 1)

theorem findModel_equalsBoth : findModel 100 equalsBoth = .ok none :=
  eq_ok_of_toOption (by decide +kernel)

theorem minimiseCore_equalsBoth : minimiseCore 100 equalsBoth = .ok (Core.ofList [equalsBit 1]) :=
  eq_ok_of_toOption (by decide +kernel)

/-- One of two clauses is lost. -/
theorem core_of_equalsBoth :
    (Core.ofList [equalsBit 1]).clauses ≠ [] ∧ ¬ (Core.ofList [equalsBit 1]).Unsatisfiable := by
  obtain ⟨nonempty, -, left, needed, unsat_iff⟩ :=
    minimiseCore_unsatisfiable_iff findModel_equalsBoth minimiseCore_equalsBoth
  refine ⟨nonempty, fun unsat => ?_⟩
  have both : neededClauses 100 equalsBoth = .ok [equalsBit 0, equalsBit 1] :=
    eq_ok_of_toOption (by decide +kernel)
  rw [both] at needed
  cases needed
  have same := unsat_iff.mp unsat (equalsBit 0) (by simp) (equalsBit 1) (by simp) (by decide +kernel)
  exact absurd same (by decide)

/-- The clause that is kept holds where both of its variables are one. -/
theorem satisfiable_core :
    ¬ ∀ (budget : Nat) (e : Expr) (core : Core), findModel budget e = .ok none →
      minimiseCore budget e = .ok core → core.clauses ≠ [] ∧
        (∀ k ∈ core.clauses, k ∈ e.conjuncts) ∧ core.Unsatisfiable := by
  intro claim
  obtain ⟨-, -, unsat⟩ := claim 100 equalsBoth _ findModel_equalsBoth minimiseCore_equalsBoth
  have together : Together (Core.ofList [equalsBit 1]).clauses := by
    refine ⟨fun _ => 1, fun k stored => ?_⟩
    rw [List.mem_singleton.mp (Core.mem_clauses_ofList stored)]
    exact ⟨eq_ok_of_toOption (by decide +kernel), by decide +kernel⟩
  exact together.not_unsatisfiable unsat

end Samples

end Solver

end Reprise
