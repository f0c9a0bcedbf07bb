import Reprise.Answer.Model
import Reprise.Expr.Walk

/-!
How far a constraint is from being satisfied when every variable has the same reference value.

A relation that fails gives the size of its violation, a conjunction the sum of its parts and a
disjunction the smallest; 0 means satisfied. Operators without such a reading count as 0, so a probe
never judges, it only measures. All arithmetic wraps at 64 bits.
-/
set_option autoImplicit false

namespace Reprise

namespace BinaryOp

def violation (op : BinaryOp) (l r : Int64) : Int64 :=
  match op with
  | .lt => if r ≤ l then l - r + 1 else 0
  | .le => if r < l then l - r else 0
  | .gt => if l ≤ r then r - l + 1 else 0
  | .ge => if l < r then r - l else 0
  | .eq => (l - r).abs
  | .ne => if l = r then 1 else 0
  | .and | .add => l + r
  | .or => min l r
  | .mul => l * r
  | .sub => (r.abs - l.abs).abs
  | .mod => if r = 0 then 0 else l % r
  | .implies | .div | .bitAnd | .bitOr | .bitXor | .shl | .shr => 0

/-- Whether `violation` looks at the operands at all. -/
def isMeasured : BinaryOp → Bool
  | .implies | .div | .bitAnd | .bitOr | .bitXor | .shl | .shr => false
  | _ => true

end BinaryOp

namespace Operator

/-- Operators that are not measured count as 0 whatever stands below them. -/
def violation : Operator → List Int64 → Except ExprFault Int64
  | .unary _, _ => .ok 0
  | .binary op, [l, r] => .ok (op.violation l r)
  | .binary op, values =>
    if op.isMeasured then .error (.arityMismatch (.binary op) 2 values.length) else .ok 0

end Operator

namespace Constant

def measure : Constant → Int64
  | .int value => value
  | .bitVec value _ => value
  | .real value => value.toInt64

end Constant

namespace Expr

def prober (reference : Int64) : Visitor Unit Int64 where
  onVariable _ _ := (.ok reference, ())
  onConstant c _ := (.ok c.measure, ())
  onOperation op values _ := (op.violation values, ())

def probe (e : Expr) (reference : Int64) : Except ExprFault Int64 := (e.walk (prober reference) ()).1

def referenceModel (e : Expr) (reference : Int64) : Model := .uniform e.vars (.int reference)

end Expr

end Reprise
