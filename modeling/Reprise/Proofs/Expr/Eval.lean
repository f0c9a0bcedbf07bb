import Reprise.Expr.Eval
import Reprise.Proofs.Expr.Walk

/-!
Evaluation as a recursion over the expression. It depends on nothing but the numbers that stand for
the variables of the expression.
-/
set_option autoImplicit false

namespace Reprise

theorem bind_eq_ok {ε α β : Type} {x : Except ε α} {f : α → Except ε β} {b : β}
    (h : x.bind f = .ok b) : ∃ a, x = .ok a ∧ f a = .ok b := by
  cases x with
  | error fault => cases h
  | ok a => exact ⟨a, rfl, h⟩

theorem eq_ok_of_toOption {ε α : Type} {x : Except ε α} {a : α} (h : x.toOption = some a) :
    x = .ok a := by
  cases x with
  | error f => cases h
  | ok b =>
    cases h
    rfl

namespace Expr

variable (read : Variable → Int64)

theorem fold_evaluator (e : Expr) : e.fold (evaluator read) () = (e.evaluateWith read, ()) := by
  rw [evaluateWith, walk_eq_fold]

@[simp] theorem evaluateWith_var (x : Variable) :
    (Expr.var x).evaluateWith read = .ok (.int (read x)) := by
  rw [evaluateWith, walk_eq_fold]
  rfl

theorem evaluateWith_const (c : Constant) :
    (Expr.const c).evaluateWith read =
      match c.asInt with
      | some n => .ok (.int n)
      | none => .error (.unsupportedConstant c.text) := by
  rw [evaluateWith, walk_eq_fold]
  cases c <;> rfl

theorem evaluateWith_unary (op : UnaryOp) (e : Expr) :
    (Expr.unary op e).evaluateWith read = (e.evaluateWith read).bind op.apply := by
  rw [evaluateWith, walk_eq_fold, fold, fold_evaluator]
  cases e.evaluateWith read <;> rfl

theorem evaluateWith_binary (op : BinaryOp) (l r : Expr) :
    (Expr.binary op l r).evaluateWith read =
      (l.evaluateWith read).bind fun a => (r.evaluateWith read).bind fun b => op.apply a b := by
  rw [evaluateWith, walk_eq_fold, fold, fold_evaluator]
  cases l.evaluateWith read with
  | error f => rfl
  | ok a =>
    simp only [fold_evaluator]
    cases r.evaluateWith read <;> rfl

variable {read}

theorem evaluateWith_congr {read' : Variable → Int64} {e : Expr}
    (agree : ∀ v ∈ e.vars, read v = read' v) : e.evaluateWith read = e.evaluateWith read' := by
  have variables_alike : ∀ x ∈ e.vars, ∀ s,
      (evaluator read).onVariable x s = (evaluator read').onVariable x s := by
    intro x mem s
    simp only [evaluator, agree x mem]
  exact congrArg Prod.fst (walk_congr variables_alike (fun _ _ => rfl) (fun _ _ _ _ => rfl) ())

/-- The constraint is true where `read` gives the variables their numbers. -/
def Holds (e : Expr) (read : Variable → Int64) : Prop := e.evaluateWith read = .ok (.bool true)

theorem holds_congr {read' : Variable → Int64} {e : Expr}
    (agree : ∀ v ∈ e.vars, read v = read' v) : e.Holds read ↔ e.Holds read' := by
  rw [Holds, Holds, evaluateWith_congr agree]

theorem truth_eq_ok_true {result : Except ExprFault Value} :
    truth result = .ok true ↔ result = .ok (.bool true) := by
  match result with
  | .ok (.bool b) => simp [truth]
  | .ok (.int n) => simp [truth]
  | .error f => simp [truth]

theorem satisfies_eq_ok_true {e : Expr} {m : Model} :
    e.satisfies m = .ok true ↔ e.Holds m.intView := truth_eq_ok_true

theorem onBools_eq_ok_true {op : BinaryOp} {a b : Value} :
    op.onBools (· && ·) a b = .ok (.bool true) ↔ a = .bool true ∧ b = .bool true := by
  cases a <;> cases b <;> simp [BinaryOp.onBools]

theorem holds_and {l r : Expr} :
    (Expr.binary .and l r).Holds read ↔ l.Holds read ∧ r.Holds read := by
  rw [Holds, Holds, Holds, evaluateWith_binary]
  cases l.evaluateWith read with
  | error f => simp [Except.bind]
  | ok a =>
    cases r.evaluateWith read with
    | error f => simp [Except.bind]
    | ok b =>
      simp only [Except.bind, BinaryOp.apply, Except.ok.injEq]
      exact onBools_eq_ok_true

/-- The answer is the value given, or a constant that has no whole number comes first. -/
def GivesOrStops (e : Expr) (read : Variable → Int64) (value : Value) : Prop :=
  e.evaluateWith read = .ok value ∨ ∃ text, e.evaluateWith read = .error (.unsupportedConstant text)

theorem GivesOrStops.unary {op : UnaryOp} {e : Expr} {a value : Value} (h : e.GivesOrStops read a)
    (applied : op.apply a = .ok value) : (Expr.unary op e).GivesOrStops read value := by
  have result := evaluateWith_unary read op e
  cases h with
  | inl gives =>
    rw [gives] at result
    exact Or.inl (result.trans applied)
  | inr stops =>
    obtain ⟨text, stopped⟩ := stops
    rw [stopped] at result
    exact Or.inr ⟨text, result⟩

theorem GivesOrStops.binary {op : BinaryOp} {l r : Expr} {a b value : Value}
    (hl : l.GivesOrStops read a) (hr : r.GivesOrStops read b) (applied : op.apply a b = .ok value) :
    (Expr.binary op l r).GivesOrStops read value := by
  have result := evaluateWith_binary read op l r
  cases hl with
  | inr stops =>
    obtain ⟨text, stopped⟩ := stops
    rw [stopped] at result
    exact Or.inr ⟨text, result⟩
  | inl gives_l =>
    rw [gives_l] at result
    cases hr with
    | inr stops =>
      obtain ⟨text, stopped⟩ := stops
      rw [stopped] at result
      exact Or.inr ⟨text, result⟩
    | inl gives_r =>
      rw [gives_r] at result
      exact Or.inl (result.trans applied)

/-- The constraint is true as far as it can be evaluated. -/
def Stands (e : Expr) (read : Variable → Int64) : Prop := e.GivesOrStops read (.bool true)

/-- A search passes over the constraint here: it is false or divides by zero. -/
def Fails (e : Expr) (read : Variable → Int64) : Prop :=
  e.evaluateWith read = .ok (.bool false) ∨
    ∃ op, e.evaluateWith read = .error (.divisionByZero op)

theorem fails_congr {read' : Variable → Int64} {e : Expr}
    (agree : ∀ v ∈ e.vars, read v = read' v) : e.Fails read ↔ e.Fails read' := by
  rw [Fails, Fails, evaluateWith_congr agree]

theorem not_fails_of_stands {e : Expr} (h : e.Stands read) : ¬ e.Fails read := by
  rintro (fails | ⟨op, fails⟩)
  · cases h with
    | inl holds => simp [holds] at fails
    | inr stopped =>
      obtain ⟨text, stopped⟩ := stopped
      simp [stopped] at fails
  · cases h with
    | inl holds => simp [holds] at fails
    | inr stopped =>
      obtain ⟨text, stopped⟩ := stopped
      simp [stopped] at fails

theorem not_fails_leaf {e : Expr} (leaf : e.isOperation = false) : ¬ e.Fails read := by
  cases e with
  | var v => simp [Fails]
  | const c =>
    rw [Fails, evaluateWith_const]
    cases c.asInt <;> simp
  | unary op e => cases leaf
  | binary op l r => cases leaf

theorem onBools_eq_ok_false {op : BinaryOp} {a b : Value}
    (h : op.onBools (· && ·) a b = .ok (.bool false)) : a = .bool false ∨ b = .bool false := by
  cases a with
  | int n => cases h
  | bool x =>
    cases b with
    | int n => cases h
    | bool y =>
      cases x with
      | false => exact Or.inl rfl
      | true =>
        cases h
        exact Or.inr rfl

theorem fails_and {l r : Expr} (h : (Expr.binary .and l r).Fails read) :
    l.Fails read ∨ r.Fails read := by
  rw [Fails, evaluateWith_binary] at h
  cases left : l.evaluateWith read with
  | error f =>
    rw [left] at h
    exact Or.inl (Or.inr (by simpa [Except.bind, left] using h))
  | ok a =>
    cases right : r.evaluateWith read with
    | error f =>
      rw [left, right] at h
      exact Or.inr (Or.inr (by simpa [Except.bind, right] using h))
    | ok b =>
      rw [left, right] at h
      cases h with
      | inl false_here =>
        cases onBools_eq_ok_false false_here with
        | inl false_left => exact Or.inl (Or.inl (left.trans (congrArg _ false_left)))
        | inr false_right => exact Or.inr (Or.inl (right.trans (congrArg _ false_right)))
      | inr stopped =>
        obtain ⟨op, stopped⟩ := stopped
        cases a <;> cases b <;> cases stopped

end Expr

end Reprise
