import Reprise.Expr.Constant
import Reprise.Expr.Operator
import Reprise.Expr.Variable
import Reprise.Fault

/-!
Constraint expressions. A node holds exactly the operands its operator takes; `operation` is the way
in for operand lists of unknown length.
-/
set_option autoImplicit false

namespace Reprise

inductive Expr where
  | var (v : Variable)
  | const (c : Constant)
  | unary (op : UnaryOp) (operand : Expr)
  | binary (op : BinaryOp) (left right : Expr)
deriving DecidableEq

namespace Expr

instance : Inhabited Expr := ⟨.const default⟩

def int (value : Int64) : Expr := .const (.int value)

def operator? : Expr → Option Operator
  | .var _ | .const _ => none
  | .unary op _ => some (.unary op)
  | .binary op _ _ => some (.binary op)

def isOperation (e : Expr) : Bool := e.operator?.isSome

def size : Expr → Nat
  | .var _ | .const _ => 1
  | .unary _ e => e.size + 1
  | .binary _ l r => l.size + r.size + 1

theorem size_pos (e : Expr) : 0 < e.size := by
  cases e <;> simp [size]

def totalSize : List Expr → Nat
  | [] => 0
  | e :: rest => e.size + totalSize rest

/-- The node of an operator over a list of operands, which must be of the operator's arity. -/
def operation : Operator → List Expr → Except ExprFault Expr
  | .unary op, [e] => .ok (.unary op e)
  | .binary op, [l, r] => .ok (.binary op l r)
  | op, operands => .error (.arityMismatch op op.arity operands.length)

/-- The constructors that make a node of one operand, by name, and their operators. -/
def unaryConstructors : List (String × Operator) := [("not", .unary .not)]

/-- Those that make a node of two. The bit operations and division have none. -/
def binaryConstructors : List (String × Operator) :=
  [("eq", .binary .eq), ("ne", .binary .ne), ("lt", .binary .lt), ("le", .binary .le),
    ("gt", .binary .gt), ("ge", .binary .ge), ("and", .binary .and), ("or", .binary .or),
    ("implies", .binary .implies), ("add", .binary .add), ("sub", .binary .sub), ("mul", .binary .mul),
    ("modulo", .binary .mod)]

def conjunction : List Expr → Option Expr
  | [] => none
  | e :: rest => some (rest.foldl (.binary .and) e)

/-- The parts of the maximal spine of conjunctions at the root of each pending expression, left to
right. -/
def collectConjuncts : List Expr → List Expr → List Expr
  | [], found => found.reverse
  | .binary .and l r :: pending, found => collectConjuncts (l :: r :: pending) found
  | e :: pending, found => collectConjuncts pending (e :: found)
termination_by pending => totalSize pending
decreasing_by
  · simp only [totalSize, size]
    omega
  · have := e.size_pos
    simp only [totalSize]
    omega

def conjuncts (e : Expr) : List Expr := collectConjuncts [e] []

end Expr

end Reprise
