import Mathlib.Algebra.Ring.Nat
import Reprise.Proofs.Distance.Probe
import Reprise.Proofs.Expr.Bounds

/-!
Where a probe judges. For conjunctions and disjunctions of comparisons between terms that are measured
as they are evaluated, the distance of a reference is zero just where the constraint is true, as long
as no sum of violations wraps.
-/
set_option autoImplicit false

namespace Reprise

namespace BinaryOp

def isComparison : BinaryOp → Bool
  | .eq | .ne | .lt | .le | .gt | .ge => true
  | _ => false

/-- The measure of the result is the result. -/
def isMeasuredByValue : BinaryOp → Bool
  | .add | .mul | .mod => true
  | _ => false

end BinaryOp

namespace Expr

/-- A number, made of variables and whole constants by operators that are measured by their value. -/
inductive Term : Expr → Prop
  | var (v : Variable) : Term (.var v)
  | const {c : Constant} {n : Int64} (whole : c.asInt = some n) : Term (.const c)
  | binary {op : BinaryOp} {l r : Expr} (byValue : op.isMeasuredByValue = true) (left : Term l)
    (right : Term r) : Term (.binary op l r)

/-- Comparisons of terms, joined by conjunction and disjunction. -/
inductive Relational : Expr → Prop
  | comparison {op : BinaryOp} {l r : Expr} (compares : op.isComparison = true) (left : Term l)
    (right : Term r) : Relational (.binary op l r)
  | and {l r : Expr} (left : Relational l) (right : Relational r) : Relational (.binary .and l r)
  | or {l r : Expr} (left : Relational l) (right : Relational r) : Relational (.binary .or l r)

def comparisons : Expr → List (Expr × Expr)
  | .binary .and l r | .binary .or l r => l.comparisons ++ r.comparisons
  | .binary _ l r => [(l, r)]
  | _ => []

end Expr

section Numbers

variable {a b : Int64} {bound : Nat}

def Within (bound : Nat) (n : Int64) : Prop := -(bound : Int) ≤ n.toInt ∧ n.toInt ≤ bound

instance (bound : Nat) (n : Int64) : Decidable (Within bound n) :=
  inferInstanceAs (Decidable (_ ∧ _))

section Difference

variable (ha : Within bound a) (hb : Within bound b) (small : 2 * bound + 1 < 2 ^ 63)

include ha hb small

theorem toInt_sub_of_within : (a - b).toInt = a.toInt - b.toInt := by
  obtain ⟨low_a, high_a⟩ := ha
  obtain ⟨low_b, high_b⟩ := hb
  rw [Int64.toInt_sub]
  exact Int.bmod_eq_of_le (by omega) (by omega)

theorem toInt_sub_add_one_of_within : (a - b + 1).toInt = a.toInt - b.toInt + 1 := by
  rw [Int64.toInt_add, toInt_sub_of_within ha hb small, Int64.toInt_one]
  obtain ⟨low_a, high_a⟩ := ha
  obtain ⟨low_b, high_b⟩ := hb
  exact Int.bmod_eq_of_le (by omega) (by omega)

theorem toInt_abs_sub_of_within : (a - b).abs.toInt = (a.toInt - b.toInt).natAbs := by
  have difference := toInt_sub_of_within ha hb small
  obtain ⟨low_a, high_a⟩ := ha
  obtain ⟨low_b, high_b⟩ := hb
  have not_least : (a - b).toBitVec ≠ BitVec.intMin 64 := fun least => by
    have least' : (a - b).toInt = -2 ^ 63 := (congrArg BitVec.toInt least).trans (by decide)
    omega
  have same : (a - b).toBitVec.toInt = (a - b).toInt := rfl
  have bits : (a - b).abs.toInt = (a - b).toBitVec.abs.toInt := rfl
  rw [bits, BitVec.toInt_abs_eq_ite, if_neg not_least, BitVec.msb_eq_toInt, same, difference]
  simp only [decide_eq_true_eq]
  split <;> omega

end Difference

end Numbers

/-- A truth value and its measure: nothing where it is true, and at most the limit. -/
structure Measured (b : Bool) (delta : Int64) (limit : Nat) : Prop where
  zero : b = true ↔ delta.toInt = 0
  nonneg : 0 ≤ delta.toInt
  atMost : delta.toInt ≤ limit

/-- What fails where a condition holds, measured by the size of the failure. -/
theorem Measured.of_failing {b : Bool} {p : Prop} [Decidable p] {delta : Int64} {limit : Nat}
    (fails : b = false ↔ p) (size : p → 0 < delta.toInt ∧ delta.toInt ≤ limit) :
    Measured b (if p then delta else 0) limit := by
  by_cases h : p
  · obtain ⟨positive, atMost⟩ := size h
    rw [if_pos h, fails.mpr h]
    exact ⟨by simp; omega, Int.le_of_lt positive, atMost⟩
  · rw [if_neg h, Bool.of_not_eq_false fun is_false => h (fails.mp is_false)]
    exact ⟨by simp, by simp, by simp⟩

section Comparisons

variable {a b : Int64} {bound : Nat} (ha : Within bound a) (hb : Within bound b)
  (small : 2 * bound + 1 < 2 ^ 63)

include ha hb small

theorem measured_lt : Measured (a < b) (if b ≤ a then a - b + 1 else 0) (2 * bound + 1) := by
  refine .of_failing (by simp) fun fails => ?_
  rw [Int64.le_iff_toInt_le] at fails
  rw [toInt_sub_add_one_of_within ha hb small]
  obtain ⟨low_a, high_a⟩ := ha
  obtain ⟨low_b, high_b⟩ := hb
  omega

theorem measured_le : Measured (a ≤ b) (if b < a then a - b else 0) (2 * bound + 1) := by
  refine .of_failing (by simp) fun fails => ?_
  rw [Int64.lt_iff_toInt_lt] at fails
  rw [toInt_sub_of_within ha hb small]
  obtain ⟨low_a, high_a⟩ := ha
  obtain ⟨low_b, high_b⟩ := hb
  omega

theorem measured_eq : Measured (a == b) (a - b).abs (2 * bound + 1) := by
  have apart := toInt_abs_sub_of_within ha hb small
  obtain ⟨low_a, high_a⟩ := ha
  obtain ⟨low_b, high_b⟩ := hb
  refine ⟨?_, by omega, by omega⟩
  rw [beq_iff_eq, ← Int64.toInt_inj, apart]
  omega

end Comparisons

section Connectives

variable {a b : Bool} {l r : Int64} {limit limit' : Nat} (hl : Measured a l limit)
  (hr : Measured b r limit')

include hl hr

theorem measured_and (small : limit + limit' < 2 ^ 63) :
    Measured (a && b) (l + r) (limit + limit') := by
  obtain ⟨zero_l, nonneg_l, atMost_l⟩ := hl
  obtain ⟨zero_r, nonneg_r, atMost_r⟩ := hr
  have sum : (l + r).toInt = l.toInt + r.toInt := by
    rw [Int64.toInt_add]
    exact Int.bmod_eq_of_le (by omega) (by omega)
  refine ⟨?_, by omega, by omega⟩
  rw [Bool.and_eq_true, zero_l, zero_r, sum]
  omega

theorem measured_or : Measured (a || b) (min l r) (limit + limit') := by
  obtain ⟨zero_l, nonneg_l, atMost_l⟩ := hl
  obtain ⟨zero_r, nonneg_r, atMost_r⟩ := hr
  have least : (min l r).toInt = min l.toInt r.toInt := by
    have chosen : min l r = if l ≤ r then l else r := rfl
    rw [chosen, Int.min_def]
    simp only [Int64.le_iff_toInt_le]
    split <;> rfl
  refine ⟨?_, by omega, by omega⟩
  rw [Bool.or_eq_true, zero_l, zero_r, least]
  omega

end Connectives

namespace BinaryOp

theorem apply_byValue {op : BinaryOp} (byValue : op.isMeasuredByValue = true) (a b : Int64) :
    op.apply (.int a) (.int b) = .ok (.int (op.violation a b)) ∨
      ∃ op', op.apply (.int a) (.int b) = .error (.divisionByZero op') := by
  cases op <;> cases byValue
  case add | mul => exact Or.inl rfl
  case mod =>
    by_cases zero : b = 0
    · exact Or.inr ⟨_, if_pos zero⟩
    · exact Or.inl ((if_neg zero).trans (congrArg _ (congrArg _ (if_neg zero).symm)))

theorem apply_comparison {op : BinaryOp} (compares : op.isComparison = true) {a b : Int64}
    {bound : Nat} (ha : Within bound a) (hb : Within bound b) (small : 2 * bound + 1 < 2 ^ 63) :
    ∃ t, op.apply (.int a) (.int b) = .ok (.bool t) ∧
      Measured t (op.violation a b) (2 * bound + 1) := by
  cases op <;> cases compares
  case eq => exact ⟨_, rfl, measured_eq ha hb small⟩
  case ne =>
    have one : (1 : Int64).toInt = 1 := rfl
    exact ⟨_, rfl, .of_failing (by simp) fun _ => by omega⟩
  case lt => exact ⟨_, rfl, measured_lt ha hb small⟩
  case le => exact ⟨_, rfl, measured_le ha hb small⟩
  case gt => exact ⟨_, rfl, measured_lt hb ha small⟩
  case ge => exact ⟨_, rfl, measured_le hb ha small⟩

end BinaryOp

namespace Expr

def valueAt (reference : Int64) (e : Expr) : Except ExprFault Value :=
  e.evaluateWith fun _ => reference

theorem evaluate_referenceModel {e part : Expr} (known : ∀ v ∈ part.vars, v ∈ e.vars)
    (reference : Int64) : part.evaluate (e.referenceModel reference) = part.valueAt reference := by
  refine evaluateWith_congr fun v mem => ?_
  have assigned : (e.referenceModel reference).get? v = some (.int reference) :=
    Model.get?_tabulate e.vars_increasing (fun _ => .int reference) (known v mem)
  exact Model.intView_of_get? assigned rfl

theorem comparisons_of_compares {op : BinaryOp} (compares : op.isComparison = true) (l r : Expr) :
    (Expr.binary op l r).comparisons = [(l, r)] := by
  cases op <;> cases compares <;> rfl

theorem Relational.vars_of_comparison {e : Expr} (formula : e.Relational) {c : Expr × Expr}
    (mem : c ∈ e.comparisons) : (∀ v ∈ c.1.vars, v ∈ e.vars) ∧ ∀ v ∈ c.2.vars, v ∈ e.vars := by
  induction formula with
  | @comparison op l r compares left right =>
    rw [comparisons_of_compares compares] at mem
    rw [List.mem_singleton.mp mem]
    exact ⟨fun v h => by simp [h], fun v h => by simp [h]⟩
  | and left right ihl ihr | or left right ihl ihr =>
    cases List.mem_append.mp mem with
    | inl at_left =>
      obtain ⟨first, second⟩ := ihl at_left
      exact ⟨fun v h => by simp [first v h], fun v h => by simp [second v h]⟩
    | inr at_right =>
      obtain ⟨first, second⟩ := ihr at_right
      exact ⟨fun v h => by simp [first v h], fun v h => by simp [second v h]⟩

/-- The reference gives the expression a value of this kind, or it divides by zero. -/
def GivesAt (reference : Int64) (e : Expr) (kind : Value → Prop) : Prop :=
  (∃ a, e.valueAt reference = .ok a ∧ kind a) ∨ ∃ op, e.valueAt reference = .error (.divisionByZero op)

theorem GivesAt.binary {reference : Int64} {op : BinaryOp} {l r : Expr}
    {left right whole : Value → Prop} (hl : l.GivesAt reference left) (hr : r.GivesAt reference right)
    (step : ∀ a b, l.valueAt reference = .ok a → left a → r.valueAt reference = .ok b → right b →
      (∃ c, op.apply a b = .ok c ∧ whole c) ∨ ∃ op', op.apply a b = .error (.divisionByZero op')) :
    (Expr.binary op l r).GivesAt reference whole := by
  rw [GivesAt, valueAt, evaluateWith_binary, ← valueAt, ← valueAt]
  obtain ⟨a, value, is_left⟩ | ⟨op', divides⟩ := hl
  · obtain ⟨b, value', is_right⟩ | ⟨op', divides⟩ := hr
    · have applied := step a b value is_left value' is_right
      rw [value, value']
      exact applied
    · rw [value, divides]
      exact Or.inr ⟨op', rfl⟩
  · rw [divides]
    exact Or.inr ⟨op', rfl⟩

theorem Term.givesAt {t : Expr} (term : t.Term) (reference : Int64) :
    t.GivesAt reference (· = .int (t.violationAt reference)) := by
  induction term with
  | var v => exact Or.inl ⟨_, evaluateWith_var _ v, rfl⟩
  | const whole =>
    refine Or.inl ⟨_, ?_, rfl⟩
    rw [valueAt, evaluateWith_const, whole, violationAt, Constant.measure_of_asInt whole]
  | binary byValue left right ihl ihr =>
    refine ihl.binary ihr ?_
    rintro a b - rfl - rfl
    exact (BinaryOp.apply_byValue byValue _ _).imp_left fun applied => ⟨_, applied, rfl⟩

def SidesWithin (bound : Nat) (reference : Int64) (e : Expr) : Prop :=
  ∀ c ∈ e.comparisons, ∀ n,
    c.1.valueAt reference = .ok (.int n) ∨ c.2.valueAt reference = .ok (.int n) → Within bound n

def Judged (e : Expr) (reference : Int64) (limit : Nat) : Prop :=
  e.GivesAt reference fun a => ∃ b, a = .bool b ∧ Measured b (e.violationAt reference) limit

section Judged

variable {reference : Int64} {bound limit limit' whole : Nat} {l r : Expr} {op : BinaryOp}

theorem judged_comparison (compares : op.isComparison = true) (left : l.Term) (right : r.Term)
    (within : (Expr.binary op l r).SidesWithin bound reference) (small : 2 * bound + 1 < 2 ^ 63) :
    (Expr.binary op l r).Judged reference (2 * bound + 1) := by
  have sides : (l, r) ∈ (Expr.binary op l r).comparisons :=
    comparisons_of_compares compares l r ▸ List.mem_singleton_self _
  refine (left.givesAt reference).binary (right.givesAt reference) ?_
  rintro a b value rfl value' rfl
  have within_l := within _ sides _ (Or.inl value)
  have within_r := within _ sides _ (Or.inr value')
  obtain ⟨t, applied, measured⟩ := BinaryOp.apply_comparison compares within_l within_r small
  exact Or.inl ⟨_, applied, t, rfl, measured⟩

theorem judged_connective {f : Bool → Bool → Bool} (hl : l.Judged reference limit)
    (hr : r.Judged reference limit')
    (applies : ∀ a b, op.apply (.bool a) (.bool b) = .ok (.bool (f a b)))
    (measures : ∀ a b, Measured a (l.violationAt reference) limit →
      Measured b (r.violationAt reference) limit' →
      Measured (f a b) (op.violation (l.violationAt reference) (r.violationAt reference)) whole) :
    (Expr.binary op l r).Judged reference whole := by
  refine hl.binary hr ?_
  rintro - - - ⟨a, rfl, left⟩ - ⟨b, rfl, right⟩
  exact Or.inl ⟨_, applies a b, f a b, rfl, measures a b left right⟩

theorem Relational.judged {e : Expr} (formula : e.Relational) (within : e.SidesWithin bound reference)
    (small : e.comparisons.length * (2 * bound + 1) < 2 ^ 63) :
    e.Judged reference (e.comparisons.length * (2 * bound + 1)) := by
  induction formula with
  | comparison compares left right =>
    have one := comparisons_of_compares compares
    rw [one, List.length_singleton, Nat.one_mul] at small ⊢
    exact judged_comparison compares left right within small
  | and left right ihl ihr =>
    rw [comparisons, List.length_append, Nat.add_mul] at small ⊢
    have hl := ihl (fun c mem => within c (List.mem_append_left _ mem)) (by omega)
    have hr := ihr (fun c mem => within c (List.mem_append_right _ mem)) (by omega)
    exact judged_connective hl hr (fun _ _ => rfl) fun a b hl hr => measured_and hl hr small
  | or left right ihl ihr =>
    rw [comparisons, List.length_append, Nat.add_mul] at small ⊢
    have hl := ihl (fun c mem => within c (List.mem_append_left _ mem)) (by omega)
    have hr := ihr (fun c mem => within c (List.mem_append_right _ mem)) (by omega)
    exact judged_connective hl hr (fun _ _ => rfl) fun a b hl hr => measured_or hl hr

end Judged

/-- A probe of comparisons joined by conjunction and disjunction judges: it is zero just where the
constraint is true under the reference. The sizes of the operands bound the sum of the violations, so
that it cannot wrap round to zero. -/
theorem probe_eq_zero_iff {e : Expr} (formula : e.Relational) {reference : Int64} {bound : Nat}
    (divides : ∀ op, e.evaluate (e.referenceModel reference) ≠ .error (.divisionByZero op))
    (within : ∀ c ∈ e.comparisons, ∀ n, c.1.evaluate (e.referenceModel reference) = .ok (.int n) ∨
      c.2.evaluate (e.referenceModel reference) = .ok (.int n) → Within bound n)
    (small : e.comparisons.length * (2 * bound + 1) ≤ Int64.maxValue.toInt) :
    ∃ delta, e.probe reference = .ok delta ∧ 0 ≤ delta.toInt ∧
      delta.toInt ≤ e.comparisons.length * (2 * bound + 1) ∧
      (delta = 0 ↔ e.satisfies (e.referenceModel reference) = .ok true) := by
  have value := evaluate_referenceModel (fun v (mem : v ∈ e.vars) => mem) reference
  have greatest : Int64.maxValue.toInt = 2 ^ 63 - 1 := rfl
  have within' : e.SidesWithin bound reference := fun c mem n side => by
    obtain ⟨known, known'⟩ := formula.vars_of_comparison mem
    refine within c mem n ?_
    rwa [evaluate_referenceModel known, evaluate_referenceModel known']
  have small' : e.comparisons.length * (2 * bound + 1) < 2 ^ 63 := by
    have cast : ((e.comparisons.length * (2 * bound + 1) : Nat) : Int) =
        e.comparisons.length * (2 * bound + 1) := by simp
    omega
  obtain ⟨-, result, b, rfl, zero, nonneg, atMost⟩ | ⟨op, divides'⟩ := formula.judged within' small'
  · refine ⟨e.violationAt reference, probe_eq e reference, nonneg, by simpa using atMost, ?_⟩
    rw [satisfies, value, result, truth, Except.ok.injEq, zero, ← Int64.toInt_inj]
    rfl
  · exact absurd (value.trans divides') (divides op)

section Samples

def across : Expr := .var ⟨"across", .int, -20000, 20000⟩

def down : Expr := .var ⟨"down", .int, -20000, 20000⟩

/-- `across < 5 && down > 150`. -/
def acrossAndDown : Expr := .binary .and (.binary .lt across (.int 5)) (.binary .gt down (.int 150))

theorem relational_acrossAndDown : acrossAndDown.Relational :=
  .and (.comparison rfl (.var _) (.const rfl)) (.comparison rfl (.var _) (.const rfl))

theorem within_of_value {bound : Nat} {e : Expr} {m : Model} {k n : Int64}
    (known : (e.evaluate m).toOption = some (.int k)) (inside : Within bound k)
    (value : e.evaluate m = .ok (.int n)) : Within bound n := by
  rw [eq_ok_of_toOption known] at value
  cases value
  exact inside

/-- At the reference 100 the comparisons miss by 96 and 51. -/
theorem acrossAndDown_at_hundred :
    ∃ delta, acrossAndDown.probe 100 = .ok delta ∧ 0 ≤ delta.toInt ∧
      delta.toInt ≤ acrossAndDown.comparisons.length * (2 * (150 : Nat) + 1) ∧
      (delta = 0 ↔ acrossAndDown.satisfies (acrossAndDown.referenceModel 100) = .ok true) := by
  have value : acrossAndDown.evaluate (acrossAndDown.referenceModel 100) = .ok (.bool false) :=
    eq_ok_of_toOption (by decide +kernel)
  refine probe_eq_zero_iff relational_acrossAndDown (fun op divides => ?_) ?_ (by decide)
  · rw [value] at divides
    cases divides
  · intro c mem n side
    have listed : acrossAndDown.comparisons = [(across, .int 5), (down, .int 150)] := rfl
    have sides : c = (across, .int 5) ∨ c = (down, .int 150) := by simpa [listed] using mem
    obtain rfl | rfl := sides <;> obtain left | right := side
    · exact within_of_value (k := 100) (by decide +kernel) (by decide) left
    · exact within_of_value (k := 5) (by decide +kernel) (by decide) right
    · exact within_of_value (k := 100) (by decide +kernel) (by decide) left
    · exact within_of_value (k := 150) (by decide +kernel) (by decide) right

/-- Without a bound two violations can cancel out. -/
example :
    let e : Expr := .binary .and (.binary .ge across (.int 0)) (.binary .ge down (.int 0))
    (e.probe Int64.minValue).toOption = some 0 ∧
      (e.satisfies (e.referenceModel Int64.minValue)).toOption = some false := by
  decide +kernel

end Samples

end Expr

end Reprise
