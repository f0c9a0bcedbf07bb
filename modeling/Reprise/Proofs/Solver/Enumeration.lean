import Mathlib.Data.List.Chain
import Mathlib.Data.List.Forall2
import Mathlib.Data.List.Range
import Reprise.Proofs.Solver.Search

/-!
The values within the bounds in lexicographic order of the variables, the last one fastest. From one
list of values to the next a single value goes up by one, and no value leaves the whole numbers of 64
bits on the way. The steps of the search are the steps through this list, so it visits the first of
them, up to one that is a solution or a fault.
-/
set_option autoImplicit false

namespace Reprise

namespace Solver

section Values

/-- The values within the bounds, in lexicographic order. -/
def allValues : List Variable → List (List Int64)
  | [] => [[]]
  | v :: rest =>
    (List.range v.domainSize).flatMap fun i => (allValues rest).map ((v.lower + Int64.ofNat i) :: ·)

theorem mem_allValues {vars : List Variable} {values : List Int64} :
    values ∈ allValues vars ↔ List.Forall₂ (fun v n => v.admits n = true) vars values := by
  induction vars generalizing values with
  | nil => simp [allValues]
  | cons v rest ih =>
    simp only [allValues, List.mem_flatMap, List.mem_range, List.mem_map, ih,
      List.forall₂_cons_left_iff, Variable.admits_iff_offset]
    constructor
    · rintro ⟨i, hi, later, within, rfl⟩
      exact ⟨_, later, ⟨i, hi, rfl⟩, within, rfl⟩
    · rintro ⟨n, later, ⟨i, hi, rfl⟩, within, rfl⟩
      exact ⟨i, hi, later, within, rfl⟩

theorem map_mem_allValues {vars : List Variable} {read : Variable → Int64} :
    vars.map read ∈ allValues vars ↔ ∀ v ∈ vars, v.admits (read v) = true := by
  rw [mem_allValues, List.forall₂_map_right_iff, List.forall₂_same]

/-- One value goes up by one, as a whole number; those before it stay, those after it go from their
upper bounds to their lower ones. -/
inductive Advances : List Variable → List Int64 → List Int64 → Prop
  | here {v : Variable} {rest : List Variable} {n n' : Int64} : n'.toInt = n.toInt + 1 →
    Advances (v :: rest) (n :: rest.map Variable.upper) (n' :: rest.map Variable.lower)
  | later {v : Variable} {rest : List Variable} {n : Int64} {values values' : List Int64} :
    Advances rest values values' → Advances (v :: rest) (n :: values) (n :: values')

theorem Advances.lt {vars : List Variable} {values values' : List Int64}
    (h : Advances vars values values') : values < values' := by
  induction h with
  | here step =>
    exact List.cons_lt_cons_iff.mpr (Or.inl (Int64.lt_iff_toInt_lt.mpr (by omega)))
  | later _ ih => exact List.cons_lt_cons_iff.mpr (Or.inr ⟨rfl, ih⟩)

theorem toInt_offset {v : Variable} {i : Nat} (h : i < v.domainSize) :
    (v.lower + Int64.ofNat i).toInt = v.lower.toInt + i := by
  rw [Variable.domainSize] at h
  have below : v.lower.toInt + i ≤ v.upper.toInt := by omega
  exact Variable.toInt_lower_add below

theorem lower_add_domainSize {v : Variable} {i : Nat} (h : v.domainSize = i + 1) :
    v.lower + Int64.ofNat i = v.upper := by
  have last : i < v.domainSize := by omega
  rw [← Int64.toInt_inj, toInt_offset last]
  rw [Variable.domainSize] at h
  omega

theorem ends_allValues (vars : List Variable) : allValues vars = [] ∨
    (allValues vars).head? = some (vars.map Variable.lower) ∧
      (allValues vars).getLast? = some (vars.map Variable.upper) := by
  induction vars with
  | nil => exact Or.inr ⟨rfl, rfl⟩
  | cons v rest ih =>
    cases ih with
    | inl empty => exact Or.inl (by simp [allValues, empty])
    | inr ends =>
      cases size : v.domainSize with
      | zero => exact Or.inl (by simp [allValues, size])
      | succ n =>
        have start : v.lower + Int64.ofNat 0 = v.lower := Int64.add_zero _
        refine Or.inr ⟨?_, ?_⟩
        · rw [allValues, size, List.range_succ_eq_map, List.flatMap_cons, List.head?_append,
            List.head?_map, ends.1, start]
          rfl
        · rw [allValues, size, List.range_succ, List.flatMap_append, List.flatMap_singleton,
            List.getLast?_append, List.getLast?_map, ends.2, lower_add_domainSize size]
          rfl

theorem isChain_allValues (vars : List Variable) : (allValues vars).IsChain (Advances vars) := by
  induction vars with
  | nil => exact List.isChain_singleton _
  | cons v rest ih =>
    cases ends_allValues rest with
    | inl empty =>
      have none_left : allValues (v :: rest) = [] := by simp [allValues, empty]
      rw [none_left]
      exact .nil
    | inr ends =>
      rw [allValues, List.flatMap_def, List.isChain_flatten ?_]
      · -- within a block the first value stays; the next block begins where all others start again
        refine ⟨?_, ?_⟩
        · intro block mem
          obtain ⟨i, -, rfl⟩ := List.mem_map.mp mem
          exact (List.isChain_map _).mpr (ih.imp fun _ _ step => .later step)
        · refine (List.isChain_map _).mpr ((List.isChain_range _ _).mpr fun i hi => ?_)
          intro last hlast first hfirst
          rw [List.getLast?_map, ends.2] at hlast
          rw [List.head?_map, ends.1] at hfirst
          cases hlast
          cases hfirst
          have next : i + 1 < v.domainSize := by omega
          refine .here ?_
          rw [toInt_offset next, toInt_offset (Nat.lt_of_succ_lt next)]
          omega
      · intro mem
        obtain ⟨i, -, empty⟩ := List.mem_map.mp mem
        rw [List.map_eq_nil_iff.mp empty] at ends
        cases ends.1

theorem pairwise_allValues (vars : List Variable) : (allValues vars).Pairwise (· < ·) :=
  ((isChain_allValues vars).imp fun _ _ => Advances.lt).pairwise

theorem allValues_eq_cons {vars : List Variable} (nonempty : ¬ ∃ v ∈ vars, v.domainSize = 0) :
    ∃ rest, allValues vars = vars.map Variable.lower :: rest := by
  have lowest : vars.map Variable.lower ∈ allValues vars := by
    refine map_mem_allValues.mpr fun v mem => ?_
    have some_value := Nat.pos_of_ne_zero fun empty => nonempty ⟨v, mem, empty⟩
    exact Variable.admits_iff_offset.mpr ⟨0, some_value, (Int64.add_zero v.lower).symm⟩
  cases ends_allValues vars with
  | inl empty => exact absurd lowest (empty ▸ List.not_mem_nil)
  | inr ends => exact List.head?_eq_some_iff.mp ends.1

theorem allValues_eq_nil {vars : List Variable} (empty : ∃ v ∈ vars, v.domainSize = 0) :
    allValues vars = [] := by
  obtain ⟨v, mem, size⟩ := empty
  induction vars with
  | nil => cases mem
  | cons w rest ih =>
    cases mem with
    | head => simp [allValues, size]
    | tail _ later => simp [allValues, ih later]

theorem mem_of_lt_of_isPrefix {vars : List Variable} {firsts : List (List Int64)}
    (h : firsts <+: allValues vars) {values values' : List Int64} (first : values ∈ firsts)
    (mem : values' ∈ allValues vars) (lt : values' < values) : values' ∈ firsts := by
  obtain ⟨later, split⟩ := h
  have ordered := pairwise_allValues vars
  rw [← split] at mem ordered
  cases List.mem_append.mp mem with
  | inl found => exact found
  | inr behind =>
    exact absurd lt (List.lt_asymm ((List.pairwise_append.mp ordered).2.2 _ first _ behind))

theorem length_allValues_cons (v : Variable) (rest : List Variable) :
    (allValues (v :: rest)).length = v.domainSize * (allValues rest).length := by
  simp [allValues, List.length_flatMap]

theorem length_allValues_of_counted {vars : List Variable} {count product : Nat}
    (h : vars.foldlM counting count = some product) : product = count * (allValues vars).length := by
  induction vars generalizing count with
  | nil => simpa [allValues] using h.symm
  | cons v rest ih => rw [ih (counted_cons.mp h).2, length_allValues_cons, Nat.mul_assoc]

theorem length_allValues_eq {vars : List Variable} (h : assignmentCount vars < countLimit) :
    (allValues vars).length = assignmentCount vars := by
  rw [assignmentCount_eq] at h ⊢
  cases counted : vars.foldlM counting 1 with
  | none =>
    rw [counted] at h
    exact absurd h (Nat.lt_irrefl _)
  | some product =>
    rw [length_allValues_of_counted counted, Nat.one_mul]
    rfl

/-- Below the limit of counting, a count of zero tells that a domain is empty. -/
theorem assignmentCount_eq_zero_iff {vars : List Variable} (h : assignmentCount vars < countLimit) :
    assignmentCount vars = 0 ↔ ∃ v ∈ vars, v.domainSize = 0 := by
  refine ⟨exists_domainSize_eq_zero, fun empty => ?_⟩
  rw [← length_allValues_eq h, allValues_eq_nil empty, List.length_nil]

end Values

section Steps

variable {vars : List Variable}

theorem advance_upper (vars : List Variable) : advance vars (vars.map Variable.upper) = none := by
  induction vars with
  | nil => rfl
  | cons v rest ih =>
    have greatest : ¬ v.upper < v.upper := Int64.lt_irrefl
    rw [List.map_cons, advance, ih]
    exact if_neg greatest

/-- The step goes to the values that are next, and the value that goes up does not wrap. -/
theorem advance_of_advances {values values' : List Int64} (h : Advances vars values values')
    (within : List.Forall₂ (fun v n => v.admits n = true) vars values') :
    advance vars values = some values' := by
  induction h with
  | @here v rest n n' step =>
    cases within with
    | cons first _ =>
      have bounded := (Variable.admits_iff.mp first).2
      have below : n < v.upper := Int64.lt_iff_toInt_lt.mpr (by omega)
      have next : n + 1 = n' := by rw [← Int64.toInt_inj, toInt_add_one below, step]
      rw [advance, advance_upper]
      exact (if_pos below).trans (by rw [next])
  | later _ ih =>
    cases within with
    | cons _ later => rw [advance, ih later]

/-- One step of the search is one step through the values in their order. -/
theorem advance_eq_head? {values : List Int64} {after : List (List Int64)}
    (suffix : values :: after <:+ allValues vars) : advance vars values = after.head? := by
  cases after with
  | nil =>
    obtain ⟨before, split⟩ := suffix
    cases ends_allValues vars with
    | inl empty =>
      rw [empty] at split
      simp at split
    | inr ends =>
      have last := ends.2
      rw [← split, List.getLast?_append_cons, List.getLast?_singleton] at last
      rw [Option.some.inj last]
      exact advance_upper vars
  | cons values' after =>
    have mem : values' ∈ allValues vars := suffix.subset (by simp)
    have chain := (isChain_allValues vars).suffix suffix
    exact advance_of_advances (List.isChain_cons_cons.mp chain).1 (mem_allValues.mp mem)

end Steps

section Scanned

/-- What tests of one list of values after the other come to: all are passed over, or there is a first
that is not, and they end with it. -/
inductive Scanned (e : Expr) (vars : List Variable) (all : List (List Int64)) :
    List (List Int64) → Except ExprFault (Option Model) → Prop
  | none : (∀ values ∈ all, test e (modelAt vars values) = .ok false) → Scanned e vars all all (.ok none)
  | passed {before after : List (List Int64)} {values : List Int64} : all = before ++ values :: after →
    (∀ earlier ∈ before, test e (modelAt vars earlier) = .ok false) →
    test e (modelAt vars values) = .ok true →
    Scanned e vars all (before ++ [values]) (.ok (some (modelAt vars values)))
  | stopped {before after : List (List Int64)} {values : List Int64} {f : ExprFault} :
    all = before ++ values :: after →
    (∀ earlier ∈ before, test e (modelAt vars earlier) = .ok false) →
    test e (modelAt vars values) = .error f → Scanned e vars all (before ++ [values]) (.error f)

variable {e : Expr} {vars : List Variable} {visited : List (List Int64)}
  {answer : Except ExprFault (Option Model)}

theorem Scanned.cons {values : List Int64} {rest : List (List Int64)}
    (h : Scanned e vars rest visited answer) (failed : test e (modelAt vars values) = .ok false) :
    Scanned e vars (values :: rest) (values :: visited) answer := by
  cases h with
  | none all => exact .none (List.forall_mem_cons.mpr ⟨failed, all⟩)
  | passed split all found =>
    exact .passed (congrArg (values :: ·) split) (List.forall_mem_cons.mpr ⟨failed, all⟩) found
  | stopped split all fault =>
    exact .stopped (congrArg (values :: ·) split) (List.forall_mem_cons.mpr ⟨failed, all⟩) fault

theorem Scanned.isPrefix {all : List (List Int64)} (h : Scanned e vars all visited answer) :
    visited <+: all := by
  cases h with
  | none _ => exact List.prefix_rfl
  | passed split _ _ => exact ⟨_, by rw [split, List.append_assoc]; rfl⟩
  | stopped split _ _ => exact ⟨_, by rw [split, List.append_assoc]; rfl⟩

theorem Visits.scanned {values : List Int64} {after : List (List Int64)}
    (h : Visits e vars values visited answer) (suffix : values :: after <:+ allValues vars) :
    Scanned e vars (values :: after) visited answer := by
  have at_start : values :: after = [] ++ values :: after := rfl
  induction h generalizing after with
  | stopped fault => exact .stopped at_start nofun fault
  | found passed => exact .passed at_start nofun passed
  | ended failed last =>
    rw [advance_eq_head? suffix, List.head?_eq_none_iff] at last
    subst last
    exact .none (List.forall_mem_singleton.mpr failed)
  | next failed advanced later ih =>
    rw [advance_eq_head? suffix] at advanced
    obtain ⟨left, rfl⟩ := List.head?_eq_some_iff.mp advanced
    exact (ih ((List.suffix_cons _ _).trans suffix) rfl).cons failed

/-- From the lower bounds on, the loop goes through all values. -/
theorem exists_visits (e : Expr) (nonempty : ¬ ∃ v ∈ vars, v.domainSize = 0) :
    ∃ visited, Visits e vars (vars.map Variable.lower) visited (search e vars (vars.map Variable.lower)) ∧
      Scanned e vars (allValues vars) visited (search e vars (vars.map Variable.lower)) := by
  obtain ⟨rest, all⟩ := allValues_eq_cons nonempty
  obtain ⟨visited, visits⟩ := visits_search e vars (vars.map Variable.lower)
  refine ⟨visited, visits, ?_⟩
  rw [all]
  exact visits.scanned (all ▸ List.suffix_rfl)

end Scanned

section FindModel

variable {budget : Nat} {e : Expr}

theorem findModel_scanned (not_real : ∀ v ∈ e.vars, v.sort ≠ .real)
    (within : assignmentCount e.vars ≤ budget) :
    ∃ visited answer, Scanned e e.vars (allValues e.vars) visited answer ∧
      findModel budget e = answer.mapError .expr := by
  rw [findModel_eq not_real within]
  split
  · rename_i empty
    rw [allValues_eq_nil empty]
    exact ⟨[], .ok none, .none nofun, rfl⟩
  · rename_i nonempty
    obtain ⟨visited, -, scanned⟩ := exists_visits e nonempty
    exact ⟨visited, _, scanned, rfl⟩

theorem inBounds_modelAt {vars : List Variable} (ordered : vars.Pairwise fun a b => compare a b = .lt)
    {values : List Int64} (within : List.Forall₂ (fun v n => v.admits n = true) vars values) :
    (modelAt vars values).InBounds := by
  intro p hp
  rw [pairs_modelAt ordered within.length_eq] at hp
  obtain ⟨q, hq, rfl⟩ := List.mem_map.mp hp
  exact ⟨q.2, literal_asInt q.1 q.2, (List.forall₂_iff_zip.mp within).2 hq⟩

theorem passedOver_modelAt_map {read : Variable → Int64} :
    e.PassedOver (modelAt e.vars (e.vars.map read)) ↔ e.Fails read := by
  rw [Expr.passedOver_iff]
  exact Expr.fails_congr fun v mem => intView_modelAt_map e.vars_increasing read mem

theorem findModel_none (h : findModel budget e = .ok none) :
    (∀ v ∈ e.vars, v.sort ≠ .real) ∧
      ∀ read : Variable → Int64, (∀ v ∈ e.vars, v.admits (read v) = true) → e.Fails read := by
  obtain ⟨not_real, small⟩ := findModel_eq_ok h
  obtain ⟨visited, answer, scanned, same⟩ := findModel_scanned not_real small
  rw [h] at same
  refine ⟨not_real, fun read within => ?_⟩
  cases scanned with
  | none all =>
    have failed := test_eq_ok_false.mp (all _ (map_mem_allValues.mpr within))
    exact passedOver_modelAt_map.mp failed
  | passed _ _ _ => cases same
  | stopped _ _ _ => cases same

theorem findModel_some {m : Model} (h : findModel budget e = .ok (some m)) :
    m.assignments.keys = e.vars ∧ m.InBounds ∧ e.satisfies m = .ok true := by
  obtain ⟨not_real, small⟩ := findModel_eq_ok h
  obtain ⟨visited, answer, scanned, same⟩ := findModel_scanned not_real small
  rw [h] at same
  cases scanned with
  | none _ => cases same
  | stopped _ _ _ => cases same
  | @passed before after values split _ passed =>
    cases same
    have within : List.Forall₂ (fun v n => v.admits n = true) e.vars values :=
      mem_allValues.mp (by simp [split])
    exact ⟨keys_modelAt e.vars_increasing within.length_eq,
      inBounds_modelAt e.vars_increasing within, test_eq_ok_true.mp passed⟩

end FindModel

end Solver

end Reprise
