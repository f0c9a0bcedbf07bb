import Reprise.Expr.Basic

/-!
Visiting an expression from the leaves up. A visitor answers at each leaf, and at each operation from
the answers of its operands; it carries a state and may stop the walk with a fault.

`fold` is the recursion that says what a walk does. `walk` does it with a list of tasks and a stack
of answers, so that depth costs no call stack.
-/
set_option autoImplicit false

namespace Reprise

structure Visitor (σ β : Type) where
  onVariable : Variable → σ → Except ExprFault β × σ
  onConstant : Constant → σ → Except ExprFault β × σ
  /-- Given the answers of the operands, in their order. -/
  onOperation : Operator → List β → σ → Except ExprFault β × σ

namespace Expr

variable {σ β : Type}

def fold (v : Visitor σ β) : Expr → σ → Except ExprFault β × σ
  | .var x, s => v.onVariable x s
  | .const c, s => v.onConstant c s
  | .unary op e, s =>
    match e.fold v s with
    | (.error f, s) => (.error f, s)
    | (.ok a, s) => v.onOperation (.unary op) [a] s
  | .binary op l r, s =>
    match l.fold v s with
    | (.error f, s) => (.error f, s)
    | (.ok a, s) =>
      match r.fold v s with
      | (.error f, s) => (.error f, s)
      | (.ok b, s) => v.onOperation (.binary op) [a, b] s

inductive Task where
  | enter (e : Expr)
  /-- All operands are answered. -/
  | leave (op : Operator)

namespace Task

def weight : Task → Nat
  | .enter e => 2 * e.size
  | .leave _ => 1

def load : List Task → Nat
  | [] => 0
  | t :: rest => t.weight + load rest

end Task

/-- Works off the tasks; the answers lie on the stack, the latest on top. -/
def work (v : Visitor σ β) : List Task → List β → σ → Except ExprFault (List β) × σ
  | [], stack, s => (.ok stack, s)
  | .enter (.var x) :: tasks, stack, s =>
    match v.onVariable x s with
    | (.error f, s) => (.error f, s)
    | (.ok a, s) => work v tasks (a :: stack) s
  | .enter (.const c) :: tasks, stack, s =>
    match v.onConstant c s with
    | (.error f, s) => (.error f, s)
    | (.ok a, s) => work v tasks (a :: stack) s
  | .enter (.unary op e) :: tasks, stack, s =>
    work v (.enter e :: .leave (.unary op) :: tasks) stack s
  | .enter (.binary op l r) :: tasks, stack, s =>
    work v (.enter l :: .enter r :: .leave (.binary op) :: tasks) stack s
  | .leave op :: tasks, stack, s =>
    match v.onOperation op (stack.take op.arity).reverse s with
    | (.error f, s) => (.error f, s)
    | (.ok a, s) => work v tasks (a :: stack.drop op.arity) s
termination_by tasks => Task.load tasks
decreasing_by
  all_goals simp only [Task.load, Task.weight, size]
  all_goals omega

/-- Visits the whole expression. A stack without an answer at the end would be a fault of its own. -/
def walk (v : Visitor σ β) (e : Expr) (s : σ) : Except ExprFault β × σ :=
  match work v [.enter e] [] s with
  | (.error f, s) => (.error f, s)
  | (.ok (a :: _), s) => (.ok a, s)
  | (.ok [], s) => (.error (.arityMismatch (.binary .and) 1 0), s)

def collector : Visitor (OrderedSet Variable) Unit where
  onVariable x seen := (.ok (), if OrderedSet.contains seen x then seen else OrderedSet.insert seen x)
  onConstant _ seen := (.ok (), seen)
  onOperation _ _ seen := (.ok (), seen)

def varSet (e : Expr) : OrderedSet Variable := (e.walk collector OrderedMap.empty).2

def vars (e : Expr) : List Variable := e.varSet.toList

end Expr

end Reprise
