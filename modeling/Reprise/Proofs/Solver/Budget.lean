import Mathlib.Algebra.BigOperators.Ring.List
import Mathlib.Algebra.Ring.Nat
import Reprise.Proofs.Solver.Decided

/-!
What the budget of a search is held against. The number of assignments is counted until it passes what
a counter can hold, and then it is taken to be that much: a domain without values makes it zero only if
the count has come so far.
-/
set_option autoImplicit false

namespace Reprise

namespace Solver

/-- The number of assignments, however large. -/
def assignments (vars : List Variable) : Nat := (vars.map Variable.domainSize).prod

/-- The domains before an empty one have more assignments than can be counted. -/
def Overflows (vars : List Variable) : Prop :=
  ∃ front rest, vars = front ++ rest ∧ countLimit < assignments front ∧ ∃ v ∈ rest, v.domainSize = 0

section Counting

@[simp] theorem assignments_nil : assignments [] = 1 := rfl

@[simp] theorem assignments_cons (v : Variable) (vars : List Variable) :
    assignments (v :: vars) = v.domainSize * assignments vars := List.prod_cons

theorem assignments_append (front rest : List Variable) :
    assignments (front ++ rest) = assignments front * assignments rest := by
  rw [assignments, List.map_append, List.prod_append]
  rfl

theorem eq_of_counted {vars : List Variable} {count product : Nat}
    (h : vars.foldlM counting count = some product) : product = count * assignments vars := by
  induction vars generalizing count with
  | nil =>
    cases h
    exact (Nat.mul_one product).symm
  | cons v rest ih => rw [ih (counted_cons.mp h).2, assignments_cons, Nat.mul_assoc]

theorem uncounted_iff {vars : List Variable} {count : Nat} (within : count ≤ countLimit) :
    vars.foldlM counting count = none ↔
      ∃ front rest, vars = front ++ rest ∧ countLimit < count * assignments front := by
  induction vars generalizing count with
  | nil =>
    refine iff_of_false (fun stopped => nomatch stopped) ?_
    rintro ⟨front, rest, split, beyond⟩
    rw [(List.append_eq_nil_iff.mp split.symm).1, assignments_nil, Nat.mul_one] at beyond
    omega
  | cons v rest ih =>
    rw [List.foldlM_cons, counting]
    split
    · rename_i fits
      refine (ih fits).trans ?_
      constructor
      · rintro ⟨front, last, rfl, beyond⟩
        exact ⟨v :: front, last, rfl, by rwa [assignments_cons, ← Nat.mul_assoc]⟩
      · rintro ⟨front, last, split, beyond⟩
        cases front with
        | nil =>
          rw [assignments_nil, Nat.mul_one] at beyond
          omega
        | cons w front =>
          cases split
          exact ⟨front, last, rfl, by rwa [assignments_cons, ← Nat.mul_assoc] at beyond⟩
    · rename_i beyond
      refine iff_of_true rfl ⟨[v], rest, rfl, ?_⟩
      rw [assignments_cons, assignments_nil, Nat.mul_one]
      omega

variable {vars : List Variable}

theorem assignments_eq_zero_iff : assignments vars = 0 ↔ ∃ v ∈ vars, v.domainSize = 0 := by
  rw [assignments, List.prod_eq_zero_iff, List.mem_map]

theorem assignments_of_overflows (h : Overflows vars) : assignments vars = 0 := by
  obtain ⟨front, rest, rfl, -, empty⟩ := h
  rw [assignments_append, assignments_eq_zero_iff.mpr empty, Nat.mul_zero]

theorem assignmentCount_of_overflows (h : Overflows vars) : assignmentCount vars = countLimit := by
  obtain ⟨front, rest, split, beyond, -⟩ := h
  have stopped : vars.foldlM counting 1 = none :=
    (uncounted_iff (by decide)).mpr ⟨front, rest, split, by rwa [Nat.one_mul]⟩
  rw [assignmentCount_eq, stopped]
  rfl

theorem assignmentCount_of_not_overflows (h : ¬ Overflows vars) :
    assignmentCount vars = min (assignments vars) countLimit := by
  rw [assignmentCount_eq]
  cases counted : vars.foldlM counting 1 with
  | some product =>
    have exact_count := eq_of_counted counted
    have within := le_countLimit_of_counted counted (by decide)
    rw [Nat.one_mul] at exact_count
    rw [Option.getD_some, ← exact_count, Nat.min_eq_left within]
  | none =>
    obtain ⟨front, rest, split, beyond⟩ := (uncounted_iff (by decide)).mp counted
    rw [Nat.one_mul] at beyond
    have values : 0 < assignments rest := Nat.pos_of_ne_zero fun none_left =>
      h ⟨front, rest, split, beyond, assignments_eq_zero_iff.mp none_left⟩
    have more := Nat.le_mul_of_pos_right (assignments front) values
    rw [Option.getD_none, split, assignments_append, Nat.min_eq_right (by omega)]

/-- Where no domain is empty, the count does not depend on the order of the variables. -/
theorem assignmentCount_perm {vars' : List Variable}
    (same : (vars'.map Variable.domainSize).Perm (vars.map Variable.domainSize))
    (values : ∀ v ∈ vars', v.domainSize ≠ 0) : assignmentCount vars' = assignmentCount vars := by
  have total : assignments vars' = assignments vars := same.prod_eq
  have some_left : assignments vars' ≠ 0 := fun zero => by
    obtain ⟨v, mem, empty⟩ := assignments_eq_zero_iff.mp zero
    exact values v mem empty
  rw [assignmentCount_of_not_overflows fun h => some_left (assignments_of_overflows h),
    assignmentCount_of_not_overflows fun h => some_left (total ▸ assignments_of_overflows h), total]

end Counting

section Budget

theorem refused_iff {budget : Nat} {e : Expr} (not_real : ∀ v ∈ e.vars, v.sort ≠ .real)
    {count limit : Nat} : findModel budget e = .error (.searchSpaceTooLarge count limit) ↔
      budget < assignmentCount e.vars ∧ count = assignmentCount e.vars ∧ limit = budget := by
  constructor
  · intro refused
    cases findModel_fault refused with
    | beyond larger => exact ⟨larger, rfl, rfl⟩
  · rintro ⟨larger, rfl, rfl⟩
    have no_real : e.vars.find? (fun v => v.sort = .real) = none :=
      List.find?_eq_none.mpr fun v mem => by simpa using not_real v mem
    simp only [findModel, no_real, if_pos larger]

/-- A search is refused if there are more assignments than the budget, and the number told is theirs or
the greatest that can be counted. It is also refused where there is no assignment at all, if the domains
before the empty one overflow the count. -/
theorem findModel_refused_iff (budget : UInt64) {e : Expr} (not_real : ∀ v ∈ e.vars, v.sort ≠ .real)
    (count limit : Nat) :
    (findModel budget.toNat e = .error (.searchSpaceTooLarge count limit) ↔
      limit = budget.toNat ∧
        (budget.toNat < assignments e.vars ∧ count = min (assignments e.vars) countLimit ∨
          Overflows e.vars ∧ count = countLimit)) ∧
    ∀ e' : Expr, (e'.vars.map Variable.domainSize).Perm (e.vars.map Variable.domainSize) →
      (∀ v ∈ e'.vars, v.sort ≠ .real ∧ v.domainSize ≠ 0) →
      (findModel budget.toNat e' = .error (.searchSpaceTooLarge count limit) ↔
        findModel budget.toNat e = .error (.searchSpaceTooLarge count limit)) := by
  have small : budget.toNat < countLimit := Nat.lt_of_lt_of_le budget.toNat_lt (by decide)
  constructor
  · rw [refused_iff not_real]
    by_cases overflows : Overflows e.vars
    · rw [assignments_of_overflows overflows, assignmentCount_of_overflows overflows]
      constructor
      · rintro ⟨-, told, given⟩
        exact ⟨given, Or.inr ⟨overflows, told⟩⟩
      · rintro ⟨given, ⟨beyond, -⟩ | ⟨-, told⟩⟩
        · omega
        · exact ⟨small, told, given⟩
    · rw [assignmentCount_of_not_overflows overflows]
      constructor
      · rintro ⟨beyond, told, given⟩
        exact ⟨given, Or.inl ⟨by omega, told⟩⟩
      · rintro ⟨given, ⟨beyond, told⟩ | ⟨does, -⟩⟩
        · exact ⟨by omega, told, given⟩
        · exact absurd does overflows
  · intro e' same admitted
    rw [refused_iff not_real, refused_iff fun v mem => (admitted v mem).1,
      assignmentCount_perm same fun v mem => (admitted v mem).2]

/-- More values than a search goes through. -/
def broad (name : String) : Variable := ⟨name, .bitVec 64, Int64.minValue, Int64.maxValue⟩

/-- `left < right && shut == 0`, where nothing lies within the bounds of `shut`. -/
def lessAndShut (left right : String) : Expr :=
  .binary .and (.binary .lt (.var (broad left)) (.var (broad right)))
    (.binary .eq (.var shut) (.int 0))

theorem lessAndShut_refused :
    findModel (100 : UInt64).toNat (lessAndShut "a" "b") =
      .error (.searchSpaceTooLarge countLimit 100) := by
  have not_real : ∀ v ∈ (lessAndShut "a" "b").vars, v.sort ≠ .real := by decide +kernel
  have vars : (lessAndShut "a" "b").vars = [broad "a", broad "b", shut] := by decide +kernel
  have overflows : Overflows (lessAndShut "a" "b").vars :=
    vars ▸ ⟨[broad "a", broad "b"], [shut], rfl, by decide, shut, by simp, rfl⟩
  exact ((findModel_refused_iff 100 not_real countLimit 100).1).mpr ⟨rfl, Or.inr ⟨overflows, rfl⟩⟩

/-- There is no assignment, and the search is refused for their number. -/
theorem lessAndShut_has_no_assignment :
    ¬ ∀ (budget : UInt64) (e : Expr), (∀ v ∈ e.vars, v.sort ≠ .real) →
      ((∃ count limit, findModel budget.toNat e = .error (.searchSpaceTooLarge count limit)) ↔
        budget.toNat < assignments e.vars) := by
  intro claim
  have not_real : ∀ v ∈ (lessAndShut "a" "b").vars, v.sort ≠ .real := by decide +kernel
  have none_left : assignments (lessAndShut "a" "b").vars = 0 := by decide +kernel
  have counted : 100 < assignmentCount (lessAndShut "a" "b").vars := by decide +kernel
  have beyond := (claim 100 _ not_real).mp ⟨_, _, (refused_iff not_real).mpr ⟨counted, rfl, rfl⟩⟩
  rw [none_left] at beyond
  omega

/-- Under names that come after `shut` the same constraint has an answer. -/
example : (findModel 100 (lessAndShut "t" "u")).toOption = some none := by decide +kernel

end Budget

end Solver

end Reprise
