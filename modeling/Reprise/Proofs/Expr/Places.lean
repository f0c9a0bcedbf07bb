import Reprise.Expr.Basic

/-!
The places in an expression: the turns that lead from the root to a node.
-/
set_option autoImplicit false

namespace Reprise

namespace Expr

def operand? : Expr → Bool → Option Expr
  | .unary _ e, false => some e
  | .binary _ l _, false => some l
  | .binary _ _ r, true => some r
  | _, _ => none

def at? (e : Expr) : List Bool → Option Expr
  | [] => some e
  | turn :: turns => (e.operand? turn).bind fun n => n.at? turns

@[simp] theorem at?_nil (e : Expr) : e.at? [] = some e := rfl

theorem at?_append (e : Expr) (turns more : List Bool) :
    e.at? (turns ++ more) = (e.at? turns).bind fun n => n.at? more := by
  induction turns generalizing e with
  | nil => rfl
  | cons turn turns ih =>
    rw [List.cons_append, at?, at?]
    cases e.operand? turn with
    | none => rfl
    | some n => exact ih n

theorem at?_snoc {e n : Expr} {turns : List Bool} (here : e.at? turns = some n) (turn : Bool) :
    e.at? (turns ++ [turn]) = n.operand? turn := by
  rw [at?_append, here, Option.bind_some, at?]
  cases n.operand? turn <;> rfl

end Expr

end Reprise
