import Reprise.Answer.Core
import Reprise.Cache.Nearest
import Reprise.Tally.Basic

/-!
Answering a query with a core found earlier: a query that contains all clauses of a core cannot hold.
-/
set_option autoImplicit false

namespace Reprise

namespace Lookup

def firstCore (target : Expr) : List Core → Tally → Option Core × Tally
  | [], t => (none, t)
  | c :: rest, t =>
    if c.isContainedIn target then (some c, (t.bump .coresTested).bump .coresReused)
    else firstCore target rest (t.bump .coresTested)

/-- Looks among the `k` nearest cores of any size; empty ones are not looked at. -/
def findCore (cores : Cache Core) (key : Binary64) (target : Expr) (k : Nat) (t : Tally) :
    Option Core × Tally :=
  firstCore target (((cores.nearest key k none).map Entry.payload).filter fun c => !c.isEmpty) t

end Lookup

end Reprise
