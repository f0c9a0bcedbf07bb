import Reprise.Proofs.Solver.Minimal

/-!
What the deletion makes of an answer that has been found. It searches parts of the constraint, and such
a search may come to a fault that the search through the whole passes by: no part is larger than the
whole unless a variable of the whole has no value, and no part faults unless the whole divides by zero
wherever it is evaluated.
-/
set_option autoImplicit false

namespace Reprise

namespace Solver

section Counting

theorem le_countLimit_of_counted {vars : List Variable} {count product : Nat}
    (h : vars.foldlM counting count = some product) (below : count ≤ countLimit) :
    product ≤ countLimit := by
  induction vars generalizing count with
  | nil =>
    cases h
    exact below
  | cons v rest ih =>
    obtain ⟨within, later⟩ := counted_cons.mp h
    exact ih later within

theorem assignmentCount_le_countLimit (vars : List Variable) : assignmentCount vars ≤ countLimit := by
  rw [assignmentCount_eq]
  cases counted : vars.foldlM counting 1 with
  | none => exact Nat.le_refl _
  | some product => exact le_countLimit_of_counted counted (by decide)

section Part

variable {part vars : List Variable} (sub : part.Sublist vars)
  (values : ∀ v ∈ vars, v.domainSize ≠ 0)

include sub values

theorem counted_of_sublist {count count' product : Nat} (less : count' ≤ count)
    (h : vars.foldlM counting count = some product) :
    ∃ product' ≤ product, part.foldlM counting count' = some product' := by
  induction sub generalizing count count' with
  | slnil =>
    cases h
    exact ⟨count', less, rfl⟩
  | cons v sub ih =>
    obtain ⟨-, later⟩ := counted_cons.mp h
    have some_value : 0 < v.domainSize := Nat.pos_of_ne_zero (values v List.mem_cons_self)
    have less_next : count' ≤ count * v.domainSize :=
      less.trans (Nat.le_mul_of_pos_right count some_value)
    exact ih (fun w mem => values w (List.mem_cons_of_mem _ mem)) less_next later
  | cons_cons v sub ih =>
    obtain ⟨within, later⟩ := counted_cons.mp h
    have less_next : count' * v.domainSize ≤ count * v.domainSize := Nat.mul_le_mul_right _ less
    obtain ⟨product', less_product, counted'⟩ :=
      ih (fun w mem => values w (List.mem_cons_of_mem _ mem)) less_next later
    exact ⟨product', less_product, counted_cons.mpr ⟨less_next.trans within, counted'⟩⟩

theorem assignmentCount_mono : assignmentCount part ≤ assignmentCount vars := by
  cases counted : vars.foldlM counting 1 with
  | none =>
    have most : assignmentCount vars = countLimit := by rw [assignmentCount_eq, counted]; rfl
    rw [most]
    exact assignmentCount_le_countLimit part
  | some product =>
    obtain ⟨product', less, counted'⟩ := counted_of_sublist sub values (Nat.le_refl 1) counted
    rw [assignmentCount_eq, assignmentCount_eq, counted, counted']
    exact less

end Part

end Counting

section Faults

variable {e : Expr} {budget : Nat} {f : OracleFault}

theorem test_of_kind (bool : e.kind = .ok .bool) (m : Model) : ∃ b, test e m = .ok b := by
  by_cases holds : e.Holds m.intView
  · exact ⟨true, test_eq_ok_true.mpr (Expr.satisfies_eq_ok_true.mpr holds)⟩
  · have fails := Expr.fails_of_kind bool holds
    exact ⟨false, test_eq_ok_false.mpr (Expr.passedOver_iff.mpr fails)⟩

theorem search_of_kind (bool : e.kind = .ok .bool) (vars : List Variable) (values : List Int64) :
    ∃ found, search e vars values = .ok found := by
  fun_induction search e vars values with
  | case1 values f fault =>
    obtain ⟨b, tested⟩ := test_of_kind bool (modelAt vars values)
    rw [tested] at fault
    cases fault
  | case2 values passed => exact ⟨_, rfl⟩
  | case3 values failed last => exact ⟨none, rfl⟩
  | case4 values failed values' advanced ih => exact ih

/-- What a search can fail of. -/
inductive SearchFault (budget : Nat) (e : Expr) : OracleFault → Prop
  | real {v : Variable} {reason : String} : v ∈ e.vars → v.sort = .real →
    SearchFault budget e (.failed reason)
  | beyond : budget < assignmentCount e.vars →
    SearchFault budget e (.searchSpaceTooLarge (assignmentCount e.vars) budget)
  | kind {f : ExprFault} : e.kind ≠ .ok .bool → SearchFault budget e (.expr f)

theorem findModel_fault (h : findModel budget e = .error f) : SearchFault budget e f := by
  simp only [findModel] at h
  split at h
  · rename_i v first
    cases h
    have real : v.sort = .real := by simpa using List.find?_some first
    exact .real (List.mem_of_find?_eq_some first) real
  · split at h
    · rename_i beyond
      cases h
      exact .beyond beyond
    · split at h
      · cases h
      · cases answered : search e e.vars (e.vars.map Variable.lower) with
        | ok found =>
          rw [answered] at h
          cases h
        | error g =>
          rw [answered] at h
          cases h
          refine .kind fun bool => ?_
          obtain ⟨found, decided⟩ := search_of_kind bool e.vars (e.vars.map Variable.lower)
          rw [decided] at answered
          cases answered

/-- The search through some of the clauses, but not through all, fails so. -/
def FailsOnPart (budget : Nat) (clauses : List Expr) (f : OracleFault) : Prop :=
  ∃ part whole, part.Sublist clauses ∧ part.length < clauses.length ∧
    Expr.conjunction part = some whole ∧ findModel budget whole = .error f

theorem FailsOnPart.mono {clauses clauses' : List Expr} (h : FailsOnPart budget clauses f)
    (sub : clauses.Sublist clauses') : FailsOnPart budget clauses' f := by
  obtain ⟨part, whole, part_sub, fewer, conj, fault⟩ := h
  exact ⟨part, whole, part_sub.trans sub, Nat.lt_of_lt_of_le fewer sub.length_le, conj, fault⟩

theorem deleteFrom_fault {needed pending : List Expr} (h : deleteFrom budget needed pending = .error f) :
    FailsOnPart budget (needed ++ pending) f := by
  fun_induction deleteFrom budget needed pending with
  | case1 needed => cases h
  | case2 needed clause rest alone => cases h
  | case3 needed clause rest others conj g fault =>
    cases h
    have sub := (List.sublist_cons_self clause rest).append_left needed
    exact ⟨needed ++ rest, others, sub, by simp, conj, fault⟩
  | case4 needed clause rest others conj none_found ih =>
    exact (ih h).mono ((List.sublist_cons_self clause rest).append_left needed)
  | case5 needed clause rest others conj m found ih => simpa using ih h

/-- Faults that the search through the whole passes by: it has nothing to search, because a variable has
no value, or every assignment divides by zero before the fault is met. -/
inductive Hidden (budget : Nat) (e : Expr) : OracleFault → Prop
  | beyond {v : Variable} {count : Nat} : v ∈ e.vars → v.domainSize = 0 → budget < count →
    Hidden budget e (.searchSpaceTooLarge count budget)
  | kind {f : ExprFault} : e.kind ≠ .ok .bool →
    (∀ m, e.AssignedBy m → ∃ op, e.evaluate m = .error (.divisionByZero op)) →
    Hidden budget e (.expr f)

theorem divides_of_kind (unsat : findModel budget e = .ok none) (not_bool : e.kind ≠ .ok .bool) {m : Model}
    (assigned : e.AssignedBy m) : ∃ op, e.evaluate m = .error (.divisionByZero op) := by
  obtain ⟨not_real, fails⟩ := findModel_none unsat
  cases fails m.intView fun v mem => assigned.admits mem (not_real v mem) with
  | inl false_here => exact absurd (Expr.kind_of_eq_ok false_here) not_bool
  | inr divides => exact divides

theorem hidden_of_part (unsat : findModel budget e = .ok none) (h : FailsOnPart budget e.conjuncts f) :
    Hidden budget e f := by
  obtain ⟨part, whole, sub, -, conj, fault⟩ := h
  have known : ∀ v ∈ whole.vars, v ∈ e.vars := by
    intro v mem
    obtain ⟨c, hc, hv⟩ := (Expr.mem_vars_conjunction conj).mp mem
    exact Expr.mem_vars_iff_conjuncts.mpr ⟨c, sub.subset hc, hv⟩
  cases findModel_fault fault with
  | real mem real => exact absurd real ((findModel_none unsat).1 _ (known _ mem))
  | beyond larger =>
    by_cases values : ∀ v ∈ e.vars, v.domainSize ≠ 0
    · have vars_sub : whole.vars.Sublist e.vars :=
        Ascending.sublist_of_subset whole.vars_increasing e.vars_increasing known
      have less := assignmentCount_mono vars_sub values
      have within := (findModel_eq_ok unsat).2
      omega
    · push Not at values
      obtain ⟨v, mem, empty⟩ := values
      exact .beyond mem empty larger
  | kind not_bool =>
    have not_bool_e : e.kind ≠ .ok .bool := fun bool =>
      not_bool (Expr.kind_conjunction conj fun c mem => Expr.kind_of_conjunct bool c (sub.subset mem))
    exact .kind not_bool_e fun m assigned => divides_of_kind unsat not_bool_e assigned

end Faults

section Solve

variable {budget : Nat} {e : Expr}

theorem clauses_ne_nil {left : List Expr} (unsat : findModel budget e = .ok none)
    (h : neededClauses budget e = .ok left) : (Core.ofList left).clauses ≠ [] := by
  obtain ⟨whole, conj, -⟩ := findModel_neededClauses unsat h
  cases left with
  | nil => cases conj
  | cons c rest =>
    have first : c ∈ c :: rest := List.mem_cons_self
    obtain ⟨k, stored, -⟩ := Core.exists_clause_of_mem first
    exact List.ne_nil_of_mem stored

/-- A model found is the answer. Where there is none the answer is a core with clauses in it, unless the
search through some of the conjuncts comes to a fault that the search through all of them hides. -/
theorem solve_of_findModel (budget : Nat) (e : Expr) :
    (∀ m, findModel budget e = .ok (some m) → solve budget e = .ok (.ofModel m)) ∧
      (findModel budget e = .ok none →
        (∃ core, core.clauses ≠ [] ∧ solve budget e = .ok (.ofCore core)) ∨
          ∃ f, solve budget e = .error f ∧ FailsOnPart budget e.conjuncts f ∧ Hidden budget e f) := by
  constructor
  · intro m found
    rw [solve, found]
  · intro unsat
    have minimised : solve budget e = ((neededClauses budget e).map Core.ofList).map Outcome.ofCore := by
      rw [solve, unsat]
      rfl
    cases needed : neededClauses budget e with
    | ok left =>
      rw [needed] at minimised
      exact Or.inl ⟨Core.ofList left, clauses_ne_nil unsat needed, minimised⟩
    | error f =>
      rw [needed] at minimised
      have part : FailsOnPart budget e.conjuncts f := deleteFrom_fault needed
      exact Or.inr ⟨f, minimised, part, hidden_of_part unsat part⟩

end Solve

section Samples

/-- One clause has a model, it and another that contradicts it have a core. -/
theorem high_and_low_decided :
    (∃ m, solve 100 levelHigh = .ok (.ofModel m)) ∧
      ∃ core, core.clauses ≠ [] ∧ solve 100 (.binary .and levelHigh levelLow) = .ok (.ofCore core) := by
  have found : findModel 100 levelHigh = .ok (some (.ofList [(level, .int 4)])) :=
    eq_ok_of_toOption (by decide +kernel)
  have unsat : findModel 100 (.binary .and levelHigh levelLow) = .ok none :=
    eq_ok_of_toOption (by decide +kernel)
  refine ⟨⟨_, (solve_of_findModel 100 levelHigh).1 _ found⟩, ?_⟩
  obtain answered | ⟨f, -, -, hidden⟩ := (solve_of_findModel 100 _).2 unsat
  · exact answered
  · cases hidden with
    | beyond mem empty =>
      have one : (Expr.binary .and levelHigh levelLow).vars = [level] := by decide +kernel
      rw [one] at mem
      rw [List.mem_singleton.mp mem] at empty
      exact absurd empty (by decide)
    | kind not_bool => exact absurd rfl not_bool

def shut : Variable := ⟨"shut", .int, 1, 0⟩

def wide : Variable := ⟨"wide", .int, 0, 1000⟩

def shutAndWide : Expr :=
  .binary .and (.binary .eq (.var shut) (.int 0)) (.binary .eq (.var wide) (.int 0))

/-- The whole has no assignment at all, its second clause more than the budget allows. -/
theorem shutAndWide_has_no_core :
    ¬ ∀ (budget : Nat) (e : Expr),
      (∀ m, findModel budget e = .ok (some m) → solve budget e = .ok (.ofModel m)) ∧
        (findModel budget e = .ok none →
          ∃ core, core.clauses ≠ [] ∧ solve budget e = .ok (.ofCore core)) := by
  intro claim
  have unsat : findModel 100 shutAndWide = .ok none := eq_ok_of_toOption (by decide +kernel)
  obtain ⟨core, -, answered⟩ := (claim 100 shutAndWide).2 unsat
  have failed : (solve 100 shutAndWide).toOption = none := by decide +kernel
  rw [answered] at failed
  cases failed

/-- In the same way a division by zero hides that the second clause is a number. -/
example :
    let e : Expr := .binary .and (.binary .eq (.binary .div (.int 1) (.int 0)) (.int 0)) (.var level)
    (findModel 100 e).toOption = some none ∧ (solve 100 e).toOption = none := by
  decide +kernel

end Samples

end Solver

end Reprise
