import Reprise.Answer.Verdict
import Reprise.Solver.Search

/-!
Cores by deletion: one conjunct after the other is left out as long as the others cannot hold
together without it.
-/
set_option autoImplicit false

namespace Reprise

namespace Solver

/-- Goes through the clauses not yet looked at; those before them are needed. A last single clause
stays. -/
def deleteFrom (budget : Nat) : List Expr → List Expr → Except OracleFault (List Expr)
  | needed, [] => .ok needed
  | needed, clause :: rest =>
    match Expr.conjunction (needed ++ rest) with
    | none => .ok (needed ++ clause :: rest)
    | some others =>
      match findModel budget others with
      | .error f => .error f
      | .ok none => deleteFrom budget needed rest
      | .ok (some _) => deleteFrom budget (needed ++ [clause]) rest

def neededClauses (budget : Nat) (e : Expr) : Except OracleFault (List Expr) :=
  deleteFrom budget [] e.conjuncts

def minimiseCore (budget : Nat) (e : Expr) : Except OracleFault Core :=
  (neededClauses budget e).map Core.ofList

def solve (budget : Nat) (e : Expr) : Except OracleFault Outcome :=
  match findModel budget e with
  | .error f => .error f
  | .ok (some m) => .ok (.ofModel m)
  | .ok none => (minimiseCore budget e).map Outcome.ofCore

def bounded (budget : Nat) : Oracle Unit := fun e _ => (solve budget e, ())

end Solver

end Reprise
