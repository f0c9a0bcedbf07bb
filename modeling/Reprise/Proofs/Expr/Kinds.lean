import Reprise.Proofs.Expr.Conjuncts

/-!
The kinds of values. Which kind of value an expression has, or which fault, can be told without the
numbers of its variables. Evaluation comes to just that, unless it divides by zero.
-/
set_option autoImplicit false

namespace Reprise

inductive Kind where
  | int
  | bool
deriving DecidableEq

def Value.kind : Value → Kind
  | .int _ => .int
  | .bool _ => .bool

def UnaryOp.kind : UnaryOp → Kind → Except ExprFault Kind
  | .not, .bool => .ok .bool
  | .not, .int => .error (.typeMismatch (.unary .not) .boolean)
  | .neg, .int => .ok .int
  | .neg, .bool => .error (.typeMismatch (.unary .neg) .integer)

def BinaryOp.kind (op : BinaryOp) (l r : Kind) : Except ExprFault Kind :=
  match op with
  | .eq | .ne => if l = r then .ok .bool else .error (.typeMismatch (.binary op) .matching)
  | .lt | .le | .gt | .ge =>
    if l = .int ∧ r = .int then .ok .bool else .error (.typeMismatch (.binary op) .integer)
  | .and | .or | .implies =>
    if l = .bool ∧ r = .bool then .ok .bool else .error (.typeMismatch (.binary op) .boolean)
  | .add | .sub | .mul | .div | .mod =>
    if l = .int ∧ r = .int then .ok .int else .error (.typeMismatch (.binary op) .integer)
  | .bitAnd | .bitOr | .bitXor | .shl | .shr => .error (.unsupportedOperator (.binary op))

/-- The result of an evaluation is a division by zero, or of this kind or fault. -/
def OfKind (result : Except ExprFault Value) (kind : Except ExprFault Kind) : Prop :=
  (∃ op, result = .error (.divisionByZero op)) ∨ result.map Value.kind = kind

theorem UnaryOp.ofKind_apply (op : UnaryOp) (a : Value) : OfKind (op.apply a) (op.kind a.kind) := by
  cases op <;> cases a <;> exact Or.inr rfl

theorem BinaryOp.ofKind_unlessZero (op : BinaryOp) (f : Int64 → Int64 → Int64) (a b : Int64) :
    OfKind (op.unlessZero f a b) (.ok .int) := by
  rw [unlessZero]
  by_cases zero : b = 0
  · rw [if_pos zero]
    exact Or.inl ⟨_, rfl⟩
  · rw [if_neg zero]
    exact Or.inr rfl

theorem BinaryOp.ofKind_apply (op : BinaryOp) (a b : Value) :
    OfKind (op.apply a b) (op.kind a.kind b.kind) := by
  cases a <;> cases b <;> cases op
  case int.int.div | int.int.mod => exact ofKind_unlessZero _ _ _ _
  all_goals exact Or.inr rfl

namespace OfKind

variable {β : Type} {result : Except ExprFault Value} {kind : Except ExprFault Kind}

theorem bind {next : Value → Except ExprFault Value} {nextKind : Kind → Except ExprFault Kind}
    (h : OfKind result kind) (later : ∀ a, OfKind (next a) (nextKind a.kind)) :
    OfKind (result.bind next) (kind.bind nextKind) := by
  cases h with
  | inl divides =>
    obtain ⟨op, rfl⟩ := divides
    exact Or.inl ⟨op, rfl⟩
  | inr same =>
    subst same
    cases result with
    | error f => exact Or.inr rfl
    | ok a => exact later a

theorem told (h : OfKind result kind) (divides : ∀ op, result ≠ .error (.divisionByZero op)) :
    result.map Value.kind = kind := by
  cases h with
  | inl stopped =>
    obtain ⟨op, stopped⟩ := stopped
    exact absurd stopped (divides op)
  | inr same => exact same

theorem alike {other : Except ExprFault Value} (h : OfKind result kind) (h' : OfKind other kind)
    (divides : ∀ op, result ≠ .error (.divisionByZero op))
    (divides' : ∀ op, other ≠ .error (.divisionByZero op)) :
    (∃ a b, result = .ok a ∧ other = .ok b ∧ a.kind = b.kind) ∨
      ∃ f, result = .error f ∧ other = .error f := by
  have told := h.told divides
  have told' := h'.told divides'
  subst told
  cases result with
  | error f =>
    cases other with
    | error g =>
      cases told'
      exact Or.inr ⟨f, rfl, rfl⟩
    | ok b => cases told'
  | ok a =>
    cases other with
    | error g => cases told'
    | ok b => exact Or.inl ⟨a, b, rfl, rfl, (Except.ok.inj told').symm⟩

end OfKind

namespace Expr

/-- The kind of the values of an expression, or the fault that evaluation comes to. -/
def kind : Expr → Except ExprFault Kind
  | .var _ => .ok .int
  | .const c =>
    match c.asInt with
    | some _ => .ok .int
    | none => .error (.unsupportedConstant c.text)
  | .unary op e => e.kind.bind op.kind
  | .binary op l r => l.kind.bind fun a => r.kind.bind fun b => op.kind a b

theorem ofKind_evaluateWith (e : Expr) (read : Variable → Int64) :
    OfKind (e.evaluateWith read) e.kind := by
  induction e with
  | var x => exact Or.inr (by rw [evaluateWith_var]; rfl)
  | const c =>
    rw [evaluateWith_const, kind]
    cases c.asInt <;> exact Or.inr rfl
  | unary op e ih =>
    rw [evaluateWith_unary, kind]
    exact ih.bind op.ofKind_apply
  | binary op l r ihl ihr =>
    rw [evaluateWith_binary, kind]
    exact ihl.bind fun a => ihr.bind fun b => op.ofKind_apply a b

variable {read : Variable → Int64} {e : Expr}

theorem kind_of_eq_ok {a : Value} (h : e.evaluateWith read = .ok a) : e.kind = .ok a.kind := by
  have told := (e.ofKind_evaluateWith read).told (by rw [h]; nofun)
  rw [← told, h]
  rfl

theorem kind_of_holds (h : e.Holds read) : e.kind = .ok .bool := kind_of_eq_ok h

theorem fails_of_kind (bool : e.kind = .ok .bool) (h : ¬ e.Holds read) : e.Fails read := by
  cases e.ofKind_evaluateWith read with
  | inl divides => exact Or.inr divides
  | inr same =>
    rw [bool] at same
    cases result : e.evaluateWith read with
    | error f =>
      rw [result] at same
      cases same
    | ok value =>
      rw [result] at same
      cases value with
      | int n => cases same
      | bool b =>
        cases b with
        | true => exact absurd result h
        | false => exact Or.inl result

theorem kind_foldl_and {first : Expr} {rest : List Expr}
    (h : ∀ c ∈ first :: rest, c.kind = .ok .bool) :
    (rest.foldl (.binary .and) first).kind = .ok .bool := by
  induction rest generalizing first with
  | nil => exact h first List.mem_cons_self
  | cons c rest ih =>
    refine ih fun d mem => ?_
    cases mem with
    | head =>
      rw [kind, h first List.mem_cons_self, h c (List.mem_cons_of_mem _ List.mem_cons_self)]
      rfl
    | tail _ later => exact h d (List.mem_cons_of_mem _ (List.mem_cons_of_mem _ later))

theorem kind_conjunction {clauses : List Expr} (h : conjunction clauses = some e)
    (bools : ∀ c ∈ clauses, c.kind = .ok .bool) : e.kind = .ok .bool := by
  cases clauses with
  | nil => cases h
  | cons first rest =>
    cases h
    exact kind_foldl_and bools

theorem kind_of_and {l r : Expr} (h : (Expr.binary .and l r).kind = .ok .bool) :
    l.kind = .ok .bool ∧ r.kind = .ok .bool := by
  obtain ⟨a, left, later⟩ := bind_eq_ok h
  obtain ⟨b, right, told⟩ := bind_eq_ok later
  have both : a = .bool ∧ b = .bool := by
    refine Decidable.byContradiction fun other => ?_
    rw [BinaryOp.kind, if_neg other] at told
    cases told
  obtain ⟨rfl, rfl⟩ := both
  exact ⟨left, right⟩

theorem kind_of_conjunct (h : e.kind = .ok .bool) : ∀ c ∈ e.conjuncts, c.kind = .ok .bool := by
  rw [conjuncts_eq_spine]
  fun_induction spine e with
  | case1 l r ihl ihr =>
    have both := kind_of_and h
    exact fun c mem => (List.mem_append.mp mem).elim (ihl both.1 c) (ihr both.2 c)
  | case2 e =>
    intro c mem
    rw [List.mem_singleton.mp mem]
    exact h

/-- Of the faults of evaluation only a division by zero depends on the assignment. -/
theorem evaluate_alike {m m' : Model} (divides : ∀ op, e.evaluate m ≠ .error (.divisionByZero op))
    (divides' : ∀ op, e.evaluate m' ≠ .error (.divisionByZero op)) :
    (∃ a b, e.evaluate m = .ok a ∧ e.evaluate m' = .ok b ∧ a.kind = b.kind) ∨
      ∃ f, e.evaluate m = .error f ∧ e.evaluate m' = .error f :=
  (e.ofKind_evaluateWith m.intView).alike (e.ofKind_evaluateWith m'.intView) divides divides'

section Samples

def guests : Variable := ⟨"guests", .int, 0, 12⟩

def sharedOut : Expr :=
  .binary .and (.binary .eq (.binary .div (.int 12) (.var guests)) (.int 4)) (.var guests)

theorem evaluate_sharedOut (m : Model) :
    sharedOut.evaluate m =
      if m.intView guests = 0 then .error (.divisionByZero (.binary .div))
      else .error (.typeMismatch (.binary .and) .boolean) := by
  rw [evaluate, sharedOut]
  simp only [int, evaluateWith_binary, evaluateWith_var, evaluateWith_const, Constant.asInt, Except.bind,
    BinaryOp.apply, BinaryOp.onInts, BinaryOp.unlessZero]
  by_cases zero : m.intView guests = 0
  · simp only [if_pos zero]
  · simp only [if_neg zero, BinaryOp.onMatching, BinaryOp.onBools]

/-- A number in place of a truth value is the fault for any number of guests but zero. -/
theorem sharedOut_faults :
    let amount n := Model.empty.insert guests (.int n)
    sharedOut.evaluate (amount 0) = .error (.divisionByZero (.binary .div)) ∧
      ∃ f, sharedOut.evaluate (amount 3) = .error f ∧ sharedOut.evaluate (amount 5) = .error f := by
  intro amount
  have three : sharedOut.evaluate (amount 3) = .error (.typeMismatch (.binary .and) .boolean) := by
    rw [evaluate_sharedOut, if_neg (by decide +kernel)]
  have five : sharedOut.evaluate (amount 5) = .error (.typeMismatch (.binary .and) .boolean) := by
    rw [evaluate_sharedOut, if_neg (by decide +kernel)]
  have divides_three : ∀ op, sharedOut.evaluate (amount 3) ≠ .error (.divisionByZero op) := by
    rw [three]
    nofun
  have divides_five : ∀ op, sharedOut.evaluate (amount 5) ≠ .error (.divisionByZero op) := by
    rw [five]
    nofun
  refine ⟨by rw [evaluate_sharedOut, if_pos (by decide +kernel)], ?_⟩
  obtain ⟨a, b, value, -, -⟩ | alike := evaluate_alike divides_three divides_five
  · rw [three] at value
    cases value
  · exact alike

end Samples

end Expr

end Reprise
