import Reprise.Expr.Basic

/-!
Expressions as they may be written down, where an operation stands over any number of operands. Those that
give every operator the operands it takes are the expressions.
-/
set_option autoImplicit false

namespace Reprise

inductive Tree where
  | var (v : Variable)
  | const (c : Constant)
  | operation (op : Operator) (operands : List Tree)

namespace Tree

mutual

def FitsArity : Tree → Prop
  | .var _ | .const _ => True
  | .operation op operands => operands.length = op.arity ∧ AllFit operands

def AllFit : List Tree → Prop
  | [] => True
  | t :: rest => t.FitsArity ∧ AllFit rest

end

theorem allFit_iff {trees : List Tree} : AllFit trees ↔ ∀ t ∈ trees, t.FitsArity := by
  induction trees with
  | nil => exact iff_of_true trivial nofun
  | cons t rest ih => rw [AllFit, ih, List.forall_mem_cons]

/-- The node that a constructor makes. That its operator takes these operands is not checked. -/
def unary (op : Operator) (operand : Tree) : Tree := .operation op [operand]

def binary (op : Operator) (left right : Tree) : Tree := .operation op [left, right]

/-- What can be made of leaves by the constructors, those that check the operands and those that do not. -/
inductive Made : Tree → Prop
  | var (v : Variable) : Made (.var v)
  | const (c : Constant) : Made (.const c)
  | operation {op : Operator} {operands : List Tree} : operands.length = op.arity →
    (∀ t ∈ operands, Made t) → Made (.operation op operands)
  | unary {name : String} {op : Operator} {operand : Tree} : (name, op) ∈ Expr.unaryConstructors →
    Made operand → Made (unary op operand)
  | binary {name : String} {op : Operator} {left right : Tree} : (name, op) ∈ Expr.binaryConstructors →
    Made left → Made right → Made (binary op left right)

theorem arity_unaryConstructors : ∀ p ∈ Expr.unaryConstructors, p.2.arity = 1 := by decide

theorem arity_binaryConstructors : ∀ p ∈ Expr.binaryConstructors, p.2.arity = 2 := by decide

theorem Made.fitsArity {t : Tree} (h : t.Made) : t.FitsArity := by
  induction h with
  | var v => trivial
  | const c => trivial
  | operation arity _ ih => exact ⟨arity, allFit_iff.mpr ih⟩
  | unary named _ ih => exact ⟨(arity_unaryConstructors _ named).symm, ih, trivial⟩
  | binary named _ _ ihl ihr => exact ⟨(arity_binaryConstructors _ named).symm, ihl, ihr, trivial⟩

end Tree

namespace Expr

def tree : Expr → Tree
  | .var v => .var v
  | .const c => .const c
  | .unary op e => .operation (.unary op) [e.tree]
  | .binary op l r => .operation (.binary op) [l.tree, r.tree]

theorem tree_fitsArity (e : Expr) : e.tree.FitsArity := by
  induction e with
  | var v => trivial
  | const c => trivial
  | unary op e ih => exact ⟨rfl, ih, trivial⟩
  | binary op l r ihl ihr => exact ⟨rfl, ihl, ihr, trivial⟩

theorem tree_inj {a b : Expr} (same : a.tree = b.tree) : a = b := by
  induction a generalizing b with
  | var v =>
    cases b <;> cases same
    rfl
  | const c =>
    cases b <;> cases same
    rfl
  | unary op e ih =>
    cases b with
    | unary op' e' =>
      simp only [tree, Tree.operation.injEq, Operator.unary.injEq, List.cons.injEq, and_true] at same
      rw [same.1, ih same.2]
    | _ => cases same
  | binary op l r ihl ihr =>
    cases b with
    | binary op' l' r' =>
      simp only [tree, Tree.operation.injEq, Operator.binary.injEq, List.cons.injEq, and_true] at same
      rw [same.1, ihl same.2.1, ihr same.2.2]
    | _ => cases same

theorem map_tree_inj {a b : List Expr} (same : a.map tree = b.map tree) : a = b :=
  (List.map_inj_right fun _ _ => tree_inj).mp same

theorem operation_eq_ok {op : Operator} {operands : List Expr} {e : Expr} :
    operation op operands = .ok e ↔
      operands.length = op.arity ∧ e.tree = .operation op (operands.map tree) := by
  constructor
  · intro made
    unfold operation at made
    split at made
    · cases made
      exact ⟨rfl, rfl⟩
    · cases made
      exact ⟨rfl, rfl⟩
    · cases made
  · rintro ⟨arity, written⟩
    cases op with
    | unary op =>
      match operands, arity with
      | [d], _ => exact congrArg Except.ok (tree_inj (a := .unary op d) written.symm)
    | binary op =>
      match operands, arity with
      | [l, r], _ => exact congrArg Except.ok (tree_inj (a := .binary op l r) written.symm)

theorem operation_refuses {op : Operator} {operands : List Expr} (wrong : operands.length ≠ op.arity) :
    operation op operands = .error (.arityMismatch op op.arity operands.length) := by
  fun_cases operation op operands with
  | case1 op e => exact absurd rfl wrong
  | case2 op l r => exact absurd rfl wrong
  | case3 op operands => rfl

theorem tree_eq_var {e : Expr} {v : Variable} : e.tree = .var v ↔ e = .var v :=
  ⟨fun written => tree_inj (b := .var v) written, fun same => same ▸ rfl⟩

theorem tree_eq_const {e : Expr} {c : Constant} : e.tree = .const c ↔ e = .const c :=
  ⟨fun written => tree_inj (b := .const c) written, fun same => same ▸ rfl⟩

theorem tree_eq_operation {e : Expr} {op : Operator} {trees : List Tree} :
    e.tree = .operation op trees ↔
      ∃ operands, trees = operands.map tree ∧ operation op operands = .ok e := by
  constructor
  · intro written
    cases e with
    | var v => cases written
    | const c => cases written
    | unary op e =>
      cases written
      exact ⟨[e], rfl, rfl⟩
    | binary op l r =>
      cases written
      exact ⟨[l, r], rfl, rfl⟩
  · rintro ⟨operands, rfl, made⟩
    exact (operation_eq_ok.mp made).2

end Expr

namespace Tree

mutual

theorem exists_expr : (t : Tree) → t.FitsArity → ∃ e : Expr, e.tree = t
  | .var v, _ => ⟨.var v, rfl⟩
  | .const c, _ => ⟨.const c, rfl⟩
  | .operation op trees, ⟨arity, fit⟩ => by
    obtain ⟨operands, rfl⟩ := exists_exprs trees fit
    rw [List.length_map] at arity
    cases op with
    | unary op =>
      match operands, arity with
      | [e], _ => exact ⟨.unary op e, rfl⟩
    | binary op =>
      match operands, arity with
      | [l, r], _ => exact ⟨.binary op l r, rfl⟩

theorem exists_exprs : (trees : List Tree) → AllFit trees → ∃ es : List Expr, es.map Expr.tree = trees
  | [], _ => ⟨[], rfl⟩
  | t :: rest, ⟨fits, fit⟩ => by
    obtain ⟨e, rfl⟩ := exists_expr t fits
    obtain ⟨es, rfl⟩ := exists_exprs rest fit
    exact ⟨e :: es, rfl⟩

end

theorem fitsArity_iff {t : Tree} : t.FitsArity ↔ ∃ e : Expr, e.tree = t := by
  constructor
  · exact t.exists_expr
  · rintro ⟨e, rfl⟩
    exact e.tree_fitsArity

theorem made_tree (e : Expr) : e.tree.Made := by
  induction e with
  | var v => exact .var v
  | const c => exact .const c
  | unary op e ih => exact .operation rfl (List.forall_mem_singleton.mpr ih)
  | binary op l r ihl ihr =>
    exact .operation rfl (List.forall_mem_cons.mpr ⟨ihl, List.forall_mem_singleton.mpr ihr⟩)

/-- The constructors keep the arities, and nothing that keeps them is out of their reach. -/
theorem made_iff {t : Tree} : t.Made ↔ t.FitsArity := by
  refine ⟨Made.fitsArity, fun fits => ?_⟩
  obtain ⟨e, rfl⟩ := t.exists_expr fits
  exact made_tree e

end Tree

end Reprise
