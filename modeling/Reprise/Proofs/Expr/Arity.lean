import Reprise.Proofs.Distance.Probe
import Reprise.Proofs.Expr.Kinds
import Reprise.Proofs.Expr.Visits
import Reprise.Proofs.Json.Tree
import Reprise.Proofs.Wire.Tree

/-!
Every operation has the operands that its operator takes. Where an expression is made, decoded or read
they are counted, at every depth; where it is walked the operation has as many answers.
-/
set_option autoImplicit false

namespace Reprise

section Values

variable {op' : Operator} {expected actual : Nat}

theorem OfKind.ne_arityMismatch {result : Except ExprFault Value} {kind : Except ExprFault Kind}
    (h : OfKind result kind) (other : kind ≠ .error (.arityMismatch op' expected actual)) :
    result ≠ .error (.arityMismatch op' expected actual) := by
  rintro rfl
  cases h with
  | inl divides =>
    obtain ⟨op, divides⟩ := divides
    cases divides
  | inr same => exact other same.symm

theorem UnaryOp.kind_ne_arityMismatch (op : UnaryOp) (a : Kind) :
    op.kind a ≠ .error (.arityMismatch op' expected actual) := by
  cases op <;> cases a <;> nofun

theorem BinaryOp.kind_ne_arityMismatch (op : BinaryOp) (a b : Kind) :
    op.kind a b ≠ .error (.arityMismatch op' expected actual) := by
  cases op <;> cases a <;> cases b <;> nofun

theorem Operator.apply_ne_arityMismatch {op : Operator} {values : List Value}
    (arity : values.length = op.arity) : op.apply values ≠ .error (.arityMismatch op' expected actual) := by
  cases op with
  | unary op =>
    match values, arity with
    | [a], _ => exact (op.ofKind_apply a).ne_arityMismatch (op.kind_ne_arityMismatch _)
  | binary op =>
    match values, arity with
    | [a, b], _ => exact (op.ofKind_apply a b).ne_arityMismatch (op.kind_ne_arityMismatch _ _)

end Values

namespace Visitor

variable {σ β : Type}

/-- The visitors do the same wherever an operation has an answer for each of its operands. -/
structure AgreeInArity (v w : Visitor σ β) : Prop where
  onVariable : ∀ x s, v.onVariable x s = w.onVariable x s
  onConstant : ∀ c s, v.onConstant c s = w.onConstant c s
  onOperation : ∀ op answers s, answers.length = op.arity →
    v.onOperation op answers s = w.onOperation op answers s

end Visitor

namespace Expr

variable {σ β : Type}

theorem walk_eq_of_agreeInArity {v w : Visitor σ β} (agree : v.AgreeInArity w) (e : Expr) (s : σ) :
    e.walk v s = e.walk w s :=
  walk_congr (fun x _ => agree.onVariable x) agree.onConstant agree.onOperation s

theorem stops_of_walk {v : Visitor σ β} {e : Expr} {s s' : σ} {f : ExprFault}
    (fault : e.walk v s = (.error f, s')) : ∃ visit ∈ e.visits, v.Stops f s' visit := by
  obtain ⟨made, -, makes⟩ := e.fold_noting v s []
  rw [← walk_eq_fold, fault] at makes
  obtain ⟨before, last, after, visits, -, stops⟩ := makes
  exact ⟨last, by simp [visits], stops⟩

theorem evaluateWith_ne_arityMismatch (e : Expr) (read : Variable → Int64) (op : Operator)
    (expected actual : Nat) : e.evaluateWith read ≠ .error (.arityMismatch op expected actual) := by
  intro fault
  obtain ⟨visit, -, stops⟩ := stops_of_walk (v := evaluator read) (e := e) (Prod.ext fault rfl)
  match visit, stops with
  | .variable x, ⟨s, stopped⟩ => cases stopped
  | .constant c, ⟨s, stopped⟩ => cases number : c.asInt <;> simp [evaluator, number] at stopped
  | .operation op, ⟨values, s, arity, stopped⟩ =>
    exact Operator.apply_ne_arityMismatch arity (congrArg Prod.fst stopped)

/-- Nodes are made of as many operands as their operators take, and of no others, whether the constructor
counts them or not. Documents and bytes are taken as what they say, at every depth, and only where all
operators have their operands. So a probe and a distance always have a value, an evaluation has other
faults, and no visitor is asked what it makes of another number of answers. -/
theorem arity_kept :
    (∀ op operands e, operation op operands = .ok e ↔
      operands.length = op.arity ∧ e.tree = .operation op (operands.map tree)) ∧
    (∀ op operands, operands.length ≠ op.arity →
      operation op operands = .error (.arityMismatch op op.arity operands.length)) ∧
    (∀ source, DecodesTrees (decode source) (Tree.decode source)) ∧
    (∀ text e, parse text = .ok e ↔ Json.decodeText (Tree.decode .text) text = .ok e.tree) ∧
    (∀ source j c, Core.decode source j = .ok c ↔
      ∃ clauses : List Expr, j.asList (Tree.decode source) = .ok (clauses.map tree) ∧
        .ofFirsts clauses = c) ∧
    Wire.ReadsTrees Wire.getExpr Wire.getTree ∧
    (∀ bytes rest (c : Core), Payload.get bytes = some (c, rest) ↔
      ∃ clauses : List Expr, Wire.getList Wire.getTree bytes = some (clauses.map tree, rest) ∧
        .ofFirsts clauses = c) ∧
    (∀ t : Tree, t.Made ↔ t.FitsArity) ∧
    (∀ t : Tree, t.FitsArity ↔ ∃ e : Expr, e.tree = t) ∧
    ∀ e : Expr,
      (∀ reference, ∃ violation, e.probe reference = .ok violation) ∧
      (∀ references, ∃ delta, SatDelta.compute e references = .ok delta) ∧
      (∀ m op expected actual, e.evaluate m ≠ .error (.arityMismatch op expected actual)) ∧
      ∀ (σ β : Type) (v w : Visitor σ β) (s : σ), v.AgreeInArity w → e.walk v s = e.walk w s := by
  refine ⟨fun _ _ _ => operation_eq_ok, fun _ _ => operation_refuses, decodesTrees, fun _ _ => parse_eq_ok,
    fun _ _ _ => Core.decode_eq_ok, Wire.readsTrees_getExpr, fun _ _ _ => Wire.getCore_eq_some,
    fun _ => Tree.made_iff, fun _ => Tree.fitsArity_iff,
    fun e => ⟨fun reference => ?_, ?_, fun m => ?_, fun _ _ _ _ s agree => ?_⟩⟩
  · exact ⟨_, e.probe_eq reference⟩
  · exact SatDelta.exists_compute e
  · exact e.evaluateWith_ne_arityMismatch m.intView
  · exact walk_eq_of_agreeInArity agree e s

/-- An evaluator that takes an operation without its operands for 0. -/
def lenient (read : Variable → Int64) : Visitor Unit Value where
  onVariable := (evaluator read).onVariable
  onConstant := (evaluator read).onConstant
  onOperation op values s :=
    if values.length = op.arity then (evaluator read).onOperation op values s else (.ok (.int 0), s)

/-- A comparison below the root of a document has one operand. -/
theorem not_decoded_without_operand :
    let v : Variable := ⟨"x", .int, 0, 9⟩
    let short := Json.object [("op", .object
      [("operator", .text "lt"), ("operands", .array [.object [("var", v.toJson)]])])]
    let j := Json.object [("op", .object [("operator", .text "not"), ("operands", .array [short])])]
    let e : Expr := .unary .not (.binary .lt (.var v) (.int 3))
    operation (.binary .lt) [.var v] = .error (.arityMismatch (.binary .lt) 2 1) ∧
    Tree.decode .tree j = .ok (.operation (.unary .not) [.operation (.binary .lt) [.var v]]) ∧
    (∀ d, decode .tree j ≠ .ok d) ∧
    Wire.getTree (Wire.putExpr e []) = some (e.tree, []) ∧
    e.walk (evaluator Variable.lower) () = e.walk (lenient Variable.lower) () := by
  intro v short j e
  obtain ⟨-, refuses, decodes, -, -, reads, -, -, fits, walks⟩ := arity_kept
  have written :
      Tree.decode .tree j = .ok (.operation (.unary .not) [.operation (.binary .lt) [.var v]]) := rfl
  refine ⟨refuses _ _ (by decide), written, fun d decoded => ?_, ?_, ?_⟩
  · have same := ((decodes .tree j d).mp decoded).symm.trans written
    have whole := (fits _).mpr ⟨d, Except.ok.inj same⟩
    simp [Tree.FitsArity, Tree.AllFit, Operator.arity] at whole
  · exact (reads _ e []).mp (Wire.getExpr_putExpr (by decide) [])
  · refine (walks e).2.2.2 Unit Value _ _ () ⟨fun _ _ => rfl, fun _ _ => rfl, fun op values s arity => ?_⟩
    exact (if_pos arity).symm

end Expr

end Reprise
