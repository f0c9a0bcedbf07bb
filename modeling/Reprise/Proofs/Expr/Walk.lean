import Reprise.Expr.Walk
import Reprise.Proofs.Ordered.Map

/-!
The walk with tasks and a stack is the fold, and the set of variables that it collects holds exactly
the variables that stand at the leaves.
-/
set_option autoImplicit false

namespace Reprise

namespace Expr

variable {σ β : Type}

/-- Entering an expression leaves its answer on the stack and goes on with the other tasks. -/
theorem work_enter (v : Visitor σ β) (e : Expr) (tasks : List Task) (stack : List β) (s : σ) :
    work v (.enter e :: tasks) stack s =
      match e.fold v s with
      | (.error f, s) => (.error f, s)
      | (.ok a, s) => work v tasks (a :: stack) s := by
  induction e generalizing tasks stack s with
  | var x => rcases answer : v.onVariable x s with ⟨_ | a, s⟩ <;> simp only [work, fold, answer]
  | const c => rcases answer : v.onConstant c s with ⟨_ | a, s⟩ <;> simp only [work, fold, answer]
  | unary op e ih =>
    rw [work, fold, ih]
    rcases e.fold v s with ⟨_ | a, s⟩
    · rfl
    · have args : ((a :: stack).take (Operator.unary op).arity).reverse = [a] := rfl
      have left : (a :: stack).drop (Operator.unary op).arity = stack := rfl
      rcases answer : v.onOperation (.unary op) [a] s with ⟨_ | b, s⟩ <;>
        simp only [work, args, left, answer]
  | binary op l r ihl ihr =>
    rw [work, fold, ihl]
    rcases l.fold v s with ⟨_ | a, s⟩
    · rfl
    · simp only [ihr]
      rcases r.fold v s with ⟨_ | b, s⟩
      · rfl
      · have args : ((b :: a :: stack).take (Operator.binary op).arity).reverse = [a, b] := rfl
        have left : (b :: a :: stack).drop (Operator.binary op).arity = stack := rfl
        rcases answer : v.onOperation (.binary op) [a, b] s with ⟨_ | c, s⟩ <;>
          simp only [work, args, left, answer]

theorem walk_eq_fold (v : Visitor σ β) (e : Expr) (s : σ) : e.walk v s = e.fold v s := by
  rw [walk, work_enter]
  rcases e.fold v s with ⟨_ | a, s⟩
  · rfl
  · simp only [work]

def leafVars : Expr → List Variable
  | .var x => [x]
  | .const _ => []
  | .unary _ e => e.leafVars
  | .binary _ l r => l.leafVars ++ r.leafVars

theorem fold_collector (e : Expr) (seen : OrderedSet Variable) :
    ∃ all, e.fold collector seen = (.ok (), all) ∧
      ∀ x, x ∈ all.toList ↔ x ∈ seen.toList ∨ x ∈ e.leafVars := by
  induction e generalizing seen with
  | var y =>
    refine ⟨_, rfl, fun x => ?_⟩
    by_cases known : seen.contains y = true
    · have mem := OrderedSet.contains_iff.mp known
      simp only [known, if_true, leafVars, List.mem_singleton]
      exact ⟨Or.inl, fun h => h.elim id fun same => same ▸ mem⟩
    · simp only [known, leafVars, List.mem_singleton]
      rw [if_neg (by simp), OrderedSet.mem_toList_insert, or_comm]
  | const c => exact ⟨seen, rfl, fun x => by simp [leafVars]⟩
  | unary op e ih =>
    obtain ⟨all, fold_eq, mem⟩ := ih seen
    exact ⟨all, by rw [fold, fold_eq]; rfl, mem⟩
  | binary op l r ihl ihr =>
    obtain ⟨left, fold_left, mem_left⟩ := ihl seen
    obtain ⟨all, fold_right, mem⟩ := ihr left
    refine ⟨all, ?_, fun x => ?_⟩
    · simp only [fold, fold_left, fold_right]
      rfl
    · rw [mem, mem_left, leafVars, List.mem_append, or_assoc]

theorem mem_vars {e : Expr} {x : Variable} : x ∈ e.vars ↔ x ∈ e.leafVars := by
  obtain ⟨all, fold_eq, mem⟩ := e.fold_collector OrderedMap.empty
  have none_seen : x ∉ OrderedSet.toList (OrderedMap.empty : OrderedSet Variable) := List.not_mem_nil
  rw [vars, varSet, walk_eq_fold, fold_eq, mem]
  simp [none_seen]

@[simp] theorem mem_vars_var {x y : Variable} : x ∈ (Expr.var y).vars ↔ x = y := by
  simp [mem_vars, leafVars]

@[simp] theorem mem_vars_const {x : Variable} {c : Constant} : x ∈ (Expr.const c).vars ↔ False := by
  simp [mem_vars, leafVars]

@[simp] theorem mem_vars_unary {x : Variable} {op : UnaryOp} {e : Expr} :
    x ∈ (Expr.unary op e).vars ↔ x ∈ e.vars := by
  simp [mem_vars, leafVars]

@[simp] theorem mem_vars_binary {x : Variable} {op : BinaryOp} {l r : Expr} :
    x ∈ (Expr.binary op l r).vars ↔ x ∈ l.vars ∨ x ∈ r.vars := by
  simp [mem_vars, leafVars]

/-- A walk asks its visitor about the variables collected and about no others, and gives an operation an
answer for each operand. Visitors that do the same there come to the same answer and state. -/
theorem walk_congr {v w : Visitor σ β} {e : Expr}
    (onVariable : ∀ x ∈ e.vars, ∀ s, v.onVariable x s = w.onVariable x s)
    (onConstant : ∀ c s, v.onConstant c s = w.onConstant c s)
    (onOperation : ∀ op answers s, answers.length = op.arity →
      v.onOperation op answers s = w.onOperation op answers s) (s : σ) :
    e.walk v s = e.walk w s := by
  rw [walk_eq_fold, walk_eq_fold]
  induction e generalizing s with
  | var x => exact onVariable x (by simp) s
  | const c => exact onConstant c s
  | unary op e ih =>
    have operand := ih fun x mem => onVariable x (by simp [mem])
    rw [fold, fold, operand]
    rcases e.fold w s with ⟨f | a, s⟩
    · rfl
    · exact onOperation (.unary op) [a] s rfl
  | binary op l r ihl ihr =>
    have left := ihl fun x mem => onVariable x (by simp [mem])
    have right := ihr fun x mem => onVariable x (by simp [mem])
    rw [fold, fold, left]
    rcases l.fold w s with ⟨f | a, s⟩
    · rfl
    · simp only [right]
      rcases r.fold w s with ⟨f | b, s⟩
      · rfl
      · exact onOperation (.binary op) [a, b] s rfl

/-- The variables stand in their order, each once. -/
theorem vars_increasing (e : Expr) : e.vars.Pairwise fun a b => compare a b = .lt :=
  List.pairwise_map.mpr e.varSet.increasing

end Expr

end Reprise
