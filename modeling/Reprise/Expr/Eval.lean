import Reprise.Answer.Model
import Reprise.Expr.Walk

/-!
Exact evaluation. Whole numbers are signed 64-bit words and wrap. Operands of the wrong kind, reals
and operations on words are faults; both operands are evaluated before a connective looks at them.
-/
set_option autoImplicit false

namespace Reprise

inductive Value where
  | int (n : Int64)
  | bool (b : Bool)
deriving DecidableEq, Inhabited

def Value.text : Value → String
  | .int n => toString n.toInt
  | .bool true => "true"
  | .bool false => "false"

namespace UnaryOp

def apply : UnaryOp → Value → Except ExprFault Value
  | .not, .bool b => .ok (.bool (!b))
  | .not, .int _ => .error (.typeMismatch (.unary .not) .boolean)
  | .neg, .int n => .ok (.int (-n))
  | .neg, .bool _ => .error (.typeMismatch (.unary .neg) .integer)

end UnaryOp

namespace BinaryOp

def onBools (op : BinaryOp) (f : Bool → Bool → Bool) : Value → Value → Except ExprFault Value
  | .bool a, .bool b => .ok (.bool (f a b))
  | _, _ => .error (.typeMismatch (.binary op) .boolean)

def onInts (op : BinaryOp) (f : Int64 → Int64 → Except ExprFault Value) :
    Value → Value → Except ExprFault Value
  | .int a, .int b => f a b
  | _, _ => .error (.typeMismatch (.binary op) .integer)

def onMatching (op : BinaryOp) (f : Bool → Bool) : Value → Value → Except ExprFault Value
  | .int a, .int b => .ok (.bool (f (a == b)))
  | .bool a, .bool b => .ok (.bool (f (a == b)))
  | _, _ => .error (.typeMismatch (.binary op) .matching)

def unlessZero (op : BinaryOp) (f : Int64 → Int64 → Int64) (a b : Int64) : Except ExprFault Value :=
  if b = 0 then .error (.divisionByZero (.binary op)) else .ok (.int (f a b))

/-- Division truncates toward zero. -/
def apply (op : BinaryOp) (l r : Value) : Except ExprFault Value :=
  match op with
  | .eq => onMatching op id l r
  | .ne => onMatching op (!·) l r
  | .lt => onInts op (fun a b => .ok (.bool (a < b))) l r
  | .le => onInts op (fun a b => .ok (.bool (a ≤ b))) l r
  | .gt => onInts op (fun a b => .ok (.bool (b < a))) l r
  | .ge => onInts op (fun a b => .ok (.bool (b ≤ a))) l r
  | .and => onBools op (· && ·) l r
  | .or => onBools op (· || ·) l r
  | .implies => onBools op (fun a b => !a || b) l r
  | .add => onInts op (fun a b => .ok (.int (a + b))) l r
  | .sub => onInts op (fun a b => .ok (.int (a - b))) l r
  | .mul => onInts op (fun a b => .ok (.int (a * b))) l r
  | .div => onInts op (unlessZero op (· / ·)) l r
  | .mod => onInts op (unlessZero op (· % ·)) l r
  | .bitAnd | .bitOr | .bitXor | .shl | .shr => .error (.unsupportedOperator (.binary op))

end BinaryOp

namespace Operator

def apply : Operator → List Value → Except ExprFault Value
  | .unary op, [a] => op.apply a
  | .binary op, [a, b] => op.apply a b
  | op, values => .error (.arityMismatch op op.arity values.length)

end Operator

namespace Expr

def evaluator (read : Variable → Int64) : Visitor Unit Value where
  onVariable x _ := (.ok (.int (read x)), ())
  onConstant c _ :=
    match c.asInt with
    | some n => (.ok (.int n), ())
    | none => (.error (.unsupportedConstant c.text), ())
  onOperation op values _ := (op.apply values, ())

def evaluateWith (e : Expr) (read : Variable → Int64) : Except ExprFault Value :=
  (e.walk (evaluator read) ()).1

def evaluate (e : Expr) (m : Model) : Except ExprFault Value := e.evaluateWith m.intView

/-- The truth value a constraint must have at its root. -/
def truth : Except ExprFault Value → Except ExprFault Bool
  | .ok (.bool b) => .ok b
  | .ok (.int n) => .error (.notBoolean (Value.int n).text)
  | .error f => .error f

def satisfies (e : Expr) (m : Model) : Except ExprFault Bool := truth (e.evaluate m)

end Expr

end Reprise
