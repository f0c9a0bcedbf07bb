import Reprise.Proofs.Solver.Enumeration

/-!
The order of the search. It evaluates the constraint for one list of values after the other, in
lexicographic order, and ends at the first that is a solution or a fault.
-/
set_option autoImplicit false

namespace Reprise

/-- The constants that values of the sort are written as. -/
def VarSort.Writes : VarSort → Constant → Prop
  | .int, .int _ => True
  | .bitVec width, .bitVec _ width' => width' = width
  | .real, .real _ => True
  | _, _ => False

namespace Expr

def valuesIn (e : Expr) (m : Model) : List Int64 := e.vars.map m.intView

/-- Exactly the variables of the constraint are assigned, within their bounds and each in the constants
of its sort. -/
structure AssignedExactly (e : Expr) (m : Model) : Prop where
  keys : m.assignments.keys = e.vars
  inBounds : m.InBounds
  written : ∀ p ∈ m.pairs, p.1.sort.Writes p.2

end Expr

namespace Solver

section Assignments

theorem writes_literal {v : Variable} (not_real : v.sort ≠ .real) (n : Int64) :
    v.sort.Writes (literal v n) := by
  rw [literal]
  cases sort : v.sort with
  | int => trivial
  | real => exact absurd sort not_real
  | bitVec width => rfl

theorem eq_literal {v : Variable} {c : Constant} {n : Int64} (writes : v.sort.Writes c)
    (asInt : c.asInt = some n) : c = literal v n := by
  rw [literal]
  cases sort : v.sort <;> rw [sort] at writes <;> cases c <;> cases writes <;> cases asInt <;> rfl

variable {e : Expr}

section OfValues

variable {values : List Int64} (mem : values ∈ allValues e.vars)

include mem

theorem assignedExactly_modelAt (not_real : ∀ v ∈ e.vars, v.sort ≠ .real) :
    e.AssignedExactly (modelAt e.vars values) where
  keys := keys_modelAt e.vars_increasing (mem_allValues.mp mem).length_eq
  inBounds := inBounds_modelAt e.vars_increasing (mem_allValues.mp mem)
  written := by
    intro p hp
    rw [pairs_modelAt e.vars_increasing (mem_allValues.mp mem).length_eq] at hp
    obtain ⟨q, hq, rfl⟩ := List.mem_map.mp hp
    exact writes_literal (not_real q.1 (List.of_mem_zip hq).1) q.2

theorem valuesIn_modelAt : e.valuesIn (modelAt e.vars values) = values := by
  have same := (mem_allValues.mp mem).length_eq
  have read : ∀ p ∈ e.vars.zip values, (modelAt e.vars values).intView p.1 = p.2 := by
    intro p hp
    have listed : (p.1, literal p.1 p.2) ∈ (modelAt e.vars values).pairs := by
      rw [pairs_modelAt e.vars_increasing same]
      exact List.mem_map_of_mem hp
    exact Model.intView_of_get? (Model.get?_eq_some_iff.mpr listed) (literal_asInt p.1 p.2)
  calc e.valuesIn (modelAt e.vars values)
      = ((e.vars.zip values).map Prod.fst).map (modelAt e.vars values).intView := by
        rw [List.map_fst_zip same.le, Expr.valuesIn]
    _ = (e.vars.zip values).map Prod.snd := by
        rw [List.map_map]
        exact List.map_congr_left read
    _ = values := List.map_snd_zip same.ge

end OfValues

theorem valuesIn_mem_allValues {m : Model} (not_real : ∀ v ∈ e.vars, v.sort ≠ .real)
    (h : e.AssignedBy m) : e.valuesIn m ∈ allValues e.vars :=
  map_mem_allValues.mpr fun v mem => h.admits mem (not_real v mem)

theorem assignedBy_of_exactly {m : Model} (h : e.AssignedExactly m) : e.AssignedBy m :=
  Expr.assignedBy_of_inBounds h.inBounds fun _ mem => h.keys ▸ mem

theorem modelAt_valuesIn {m : Model} (h : e.AssignedExactly m) :
    modelAt e.vars (e.valuesIn m) = m := by
  have values : ∀ p ∈ m.pairs, (p.1, literal p.1 (m.intView p.1)) = p := by
    intro p hp
    obtain ⟨n, asInt, -⟩ := h.inBounds p hp
    rw [Model.intView_of_get? (Model.get?_eq_some_iff.mpr hp) asInt,
      ← eq_literal (h.written p hp) asInt]
  have pairs : (modelAt e.vars (e.valuesIn m)).pairs = m.pairs := by
    calc (modelAt e.vars (e.valuesIn m)).pairs
        = e.vars.map fun v => (v, literal v (m.intView v)) := by
          rw [Expr.valuesIn, modelAt_map, Model.pairs_tabulate e.vars_increasing]
      _ = m.pairs.map fun p => (p.1, literal p.1 (m.intView p.1)) := by
          rw [← h.keys, OrderedMap.keys, List.map_map]
          rfl
      _ = m.pairs := (List.map_congr_left values).trans (List.map_id _)
  exact congrArg Model.mk (OrderedMap.ext pairs)

theorem passedOver_of_test {m : Model} (h : test e (modelAt e.vars (e.valuesIn m)) = .ok false) :
    e.PassedOver m :=
  Expr.passedOver_iff.mpr (passedOver_modelAt_map.mp (test_eq_ok_false.mp h))

end Assignments

section Order

/-- A search within the budget: the lists of values that it visits, in turn, and its answer. -/
inductive Run (e : Expr) : List (List Int64) → Except OracleFault (Option Model) → Prop
  | nothing : assignmentCount e.vars = 0 → Run e [] (.ok none)
  | loop {visited : List (List Int64)} {answer : Except ExprFault (Option Model)} :
    assignmentCount e.vars ≠ 0 → Visits e e.vars (e.vars.map Variable.lower) visited answer →
    Run e visited (answer.mapError .expr)

/-- The search tests the first assignments in lexicographic order, from one to the next without an
overflow. -/
structure Enumerated (e : Expr) (tested : List Model) : Prop where
  exact : ∀ m ∈ tested, e.AssignedExactly m
  initial : ∀ m ∈ tested, ∀ m', e.AssignedExactly m' → e.valuesIn m' < e.valuesIn m → m' ∈ tested
  steps : (tested.map e.valuesIn).IsChain (Advances e.vars)

/-- Every assignment that comes before this one is passed over. -/
def PassesBelow (e : Expr) (m : Model) : Prop :=
  ∀ m', e.AssignedBy m' → e.valuesIn m' < e.valuesIn m → e.PassedOver m'

/-- What an answer of the search says about the assignments within the bounds. All of them have been
tested, or the last one tested is the first that could not be passed over. -/
inductive Decides (e : Expr) : List Model → Except OracleFault (Option Model) → Prop
  | exhausted {tested : List Model} : (∀ m, e.AssignedExactly m → m ∈ tested) →
    (∀ m, e.AssignedBy m → e.PassedOver m) → Decides e tested (.ok none)
  | found {before : List Model} {m : Model} : e.AssignedExactly m → e.satisfies m = .ok true →
    PassesBelow e m → Decides e (before ++ [m]) (.ok (some m))
  | stopped {before : List Model} {m : Model} {f : ExprFault} : e.AssignedExactly m →
    e.satisfies m = .error f → (∀ op, f ≠ .divisionByZero op) → PassesBelow e m →
    Decides e (before ++ [m]) (.error (.expr f))

section Searched

variable {e : Expr} (not_real : ∀ v ∈ e.vars, v.sort ≠ .real)

include not_real

theorem enumerated_of_isPrefix {firsts : List (List Int64)} (h : firsts <+: allValues e.vars) :
    Enumerated e (firsts.map (modelAt e.vars)) where
  exact := by
    intro m mem
    obtain ⟨values, first, rfl⟩ := List.mem_map.mp mem
    exact assignedExactly_modelAt (h.subset first) not_real
  initial := by
    intro m mem m' assigned lt
    obtain ⟨values, first, rfl⟩ := List.mem_map.mp mem
    rw [valuesIn_modelAt (h.subset first)] at lt
    have below := valuesIn_mem_allValues not_real (assignedBy_of_exactly assigned)
    refine List.mem_map.mpr ⟨e.valuesIn m', mem_of_lt_of_isPrefix h first below lt, ?_⟩
    exact modelAt_valuesIn assigned
  steps := by
    have same : (firsts.map (modelAt e.vars)).map e.valuesIn = firsts := by
      rw [List.map_map]
      exact (List.map_congr_left fun values first => valuesIn_modelAt (h.subset first)).trans
        (List.map_id firsts)
    obtain ⟨later, split⟩ := h
    have chain := isChain_allValues e.vars
    rw [← split] at chain
    rw [same]
    exact chain.left_of_append

theorem passesBelow_of_failed {before after : List (List Int64)} {values : List Int64}
    (split : allValues e.vars = before ++ values :: after)
    (failed : ∀ earlier ∈ before, test e (modelAt e.vars earlier) = .ok false) {m : Model}
    (at_values : e.valuesIn m = values) : PassesBelow e m := by
  intro m' assigned lt
  have mem := valuesIn_mem_allValues not_real assigned
  have firsts : before ++ [values] <+: allValues e.vars := ⟨after, by rw [split]; simp⟩
  have earlier : e.valuesIn m' ∈ before ++ [values] :=
    mem_of_lt_of_isPrefix firsts (List.mem_append_right _ List.mem_cons_self) mem (at_values ▸ lt)
  refine passedOver_of_test (failed _ ?_)
  cases List.mem_append.mp earlier with
  | inl before => exact before
  | inr here =>
    rw [List.mem_singleton.mp here, ← at_values] at lt
    exact absurd lt (List.lt_irrefl _)

theorem Scanned.decides {visited : List (List Int64)} {answer : Except ExprFault (Option Model)}
    (h : Scanned e e.vars (allValues e.vars) visited answer) :
    Decides e (visited.map (modelAt e.vars)) (answer.mapError .expr) := by
  cases h with
  | none all =>
    refine .exhausted (fun m assigned => ?_) fun m assigned => ?_
    · have mem := valuesIn_mem_allValues not_real (assignedBy_of_exactly assigned)
      exact List.mem_map.mpr ⟨e.valuesIn m, mem, modelAt_valuesIn assigned⟩
    · exact passedOver_of_test (all _ (valuesIn_mem_allValues not_real assigned))
  | @passed before after values split failed found =>
    have mem : values ∈ allValues e.vars := by simp [split]
    rw [List.map_append, List.map_singleton]
    exact .found (assignedExactly_modelAt mem not_real) (test_eq_ok_true.mp found)
      (passesBelow_of_failed not_real split failed (valuesIn_modelAt mem))
  | @stopped before after values f split failed fault =>
    have mem : values ∈ allValues e.vars := by simp [split]
    obtain ⟨result, not_zero⟩ := test_eq_error.mp fault
    rw [List.map_append, List.map_singleton]
    exact .stopped (assignedExactly_modelAt mem not_real) result not_zero
      (passesBelow_of_failed not_real split failed (valuesIn_modelAt mem))

end Searched

/-- There is one search within a budget that a counter can hold; it goes through the values in their
order, and its answer is the one given. -/
theorem exists_run {budget : Nat} {e : Expr} (not_real : ∀ v ∈ e.vars, v.sort ≠ .real)
    (small : budget < countLimit) (within : assignmentCount e.vars ≤ budget) :
    ∃ visited answer, Scanned e e.vars (allValues e.vars) visited answer ∧
      findModel budget e = answer.mapError .expr ∧
        ∀ visited' answer', Run e visited' answer' ↔
          visited' = visited ∧ answer' = findModel budget e := by
  have zero_iff := assignmentCount_eq_zero_iff (Nat.lt_of_le_of_lt within small)
  rw [findModel_eq not_real within]
  split
  · rename_i empty
    have zero := zero_iff.mpr empty
    rw [allValues_eq_nil empty]
    refine ⟨[], .ok none, .none nofun, rfl, fun visited' answer' => ⟨fun run => ?_, ?_⟩⟩
    · cases run with
      | nothing _ => exact ⟨rfl, rfl⟩
      | loop some_left _ => exact absurd zero some_left
    · rintro ⟨rfl, rfl⟩
      exact .nothing zero
  · rename_i nonempty
    have some_left := fun zero => nonempty (zero_iff.mp zero)
    obtain ⟨visited, visits, scanned⟩ := exists_visits e nonempty
    refine ⟨visited, _, scanned, rfl, fun visited' answer' => ⟨fun run => ?_, ?_⟩⟩
    · cases run with
      | nothing zero => exact absurd zero some_left
      | loop _ visits' =>
        obtain ⟨rfl, rfl⟩ := visits.unique visits'
        exact ⟨rfl, rfl⟩
    · rintro ⟨rfl, rfl⟩
      exact .loop some_left visits

/-- Within the budget the search goes through the assignments in lexicographic order, evaluates the
constraint at most as often as the budget allows, and its answer comes from the first assignment that
it cannot pass over. -/
theorem findModel_decides_in_order (budget : UInt64) (e : Expr)
    (not_real : ∀ v ∈ e.vars, v.sort ≠ .real) (within : assignmentCount e.vars ≤ budget.toNat) :
    ∃ visited : List (List Int64),
      (∀ visited' answer, Run e visited' answer ↔
        visited' = visited ∧ answer = findModel budget.toNat e) ∧
      visited.length ≤ budget.toNat ∧ visited <+: allValues e.vars ∧
        Enumerated e (visited.map (modelAt e.vars)) ∧
          Decides e (visited.map (modelAt e.vars)) (findModel budget.toNat e) := by
  have small : budget.toNat < countLimit := Nat.lt_trans budget.toNat_lt (by decide)
  obtain ⟨visited, answer, scanned, same, run⟩ := exists_run not_real small within
  refine ⟨visited, run, ?_, scanned.isPrefix, enumerated_of_isPrefix not_real scanned.isPrefix,
    same ▸ scanned.decides not_real⟩
  calc visited.length
      ≤ (allValues e.vars).length := scanned.isPrefix.length_le
    _ = assignmentCount e.vars := length_allValues_eq (by omega)
    _ ≤ budget.toNat := within

section Samples

def divisor : Variable := ⟨"divisor", .int, 0, 2⟩

def large : Variable := ⟨"large", .int, Int64.maxValue - 1, Int64.maxValue⟩

/-- `6 % divisor == 0 && large == 9223372036854775807`. -/
def largeAndDivided : Expr :=
  .binary .and (.binary .eq (.binary .mod (.int 6) (.var divisor)) (.int 0))
    (.binary .eq (.var large) (.int Int64.maxValue))

/-- The search passes over the divisor zero and goes up to the largest whole number. -/
theorem search_up_to_largest :
    let top := Int64.maxValue
    let visited : List (List Int64) := [[0, top - 1], [0, top], [1, top - 1], [1, top]]
    let answer : Model := .ofList [(divisor, .int 1), (large, .int top)]
    assignmentCount largeAndDivided.vars = 6 ∧ Run largeAndDivided visited (.ok (some answer)) ∧
      findModel 6 largeAndDivided = .ok (some answer) ∧
        visited <+: allValues [divisor, large] ∧ PassesBelow largeAndDivided answer := by
  intro top visited answer
  have vars : largeAndDivided.vars = [divisor, large] := by decide +kernel
  have count : assignmentCount largeAndDivided.vars = 6 := by decide +kernel
  have failed : ∀ values ∈ visited.take 3,
      (test largeAndDivided (modelAt [divisor, large] values)).toOption = some false := by
    decide +kernel
  have passed : test largeAndDivided (modelAt [divisor, large] [1, top]) = .ok true :=
    eq_ok_of_toOption (by decide +kernel)
  have visits : Visits largeAndDivided [divisor, large] [0, top - 1] visited (.ok (some answer)) := by
    have step : ∀ i < 3, advance [divisor, large] visited[i]! = some visited[i + 1]! := by
      decide +kernel
    refine .next ?_ (step 0 (by decide)) (.next ?_ (step 1 (by decide)) (.next ?_ (step 2 (by decide))
      (.found passed)))
    all_goals exact eq_ok_of_toOption (failed _ (by simp [visited]))
  have run : Run largeAndDivided visited (.ok (some answer)) :=
    .loop (by rw [count]; decide) (by rw [vars]; exact visits)
  obtain ⟨visited', runs, -, first, -, decides⟩ :=
    findModel_decides_in_order 6 largeAndDivided (by decide +kernel) (by decide +kernel)
  obtain ⟨same, found⟩ := (runs _ _).mp run
  rw [← found] at decides
  rw [vars, ← same] at first
  refine ⟨count, run, found.symm, first, ?_⟩
  generalize visited'.map (modelAt largeAndDivided.vars) = tested at decides
  cases decides with
  | found _ _ below => exact below

end Samples

end Order

end Solver

end Reprise
