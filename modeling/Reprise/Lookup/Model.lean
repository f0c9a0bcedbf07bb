import Reprise.Cache.Nearest
import Reprise.Expr.Eval
import Reprise.Tally.Basic

/-!
Answering a query with a model found earlier: the nearest models of no more variables than the query
are evaluated, and the first under which the query holds is taken.
-/
set_option autoImplicit false

namespace Reprise

namespace Lookup

/-- Cuts a model down to the query's number of variables. One that is smaller is counted as an
inconsistency and kept as it is. -/
def trim (m : Model) (size : Nat) (t : Tally) : Model × Tally :=
  if m.size < size then (m, t.bump .cacheInconsistencies)
  else (m.trimmed size, t)

/-- The first candidate under which the target holds. One that divides by zero is passed over; any
other fault ends the lookup. -/
def firstModel (target : Expr) (size : Nat) : List Model → Tally → Except ExprFault (Option Model) × Tally
  | [], t => (.ok none, t)
  | m :: rest, t =>
    match target.satisfies m with
    | .ok true =>
      let (trimmed, t) := trim m size (t.bump .modelsReused)
      (.ok (some trimmed), t)
    | .ok false | .error (.divisionByZero _) => firstModel target size rest (t.bump .modelsTested)
    | .error f => (.error f, t)

def findModel (models : Cache Model) (key : Binary64) (target : Expr) (size k : Nat) (t : Tally) :
    Except ExprFault (Option Model) × Tally :=
  firstModel target size ((models.nearest key k (some size)).map Entry.payload) t

end Lookup

end Reprise
