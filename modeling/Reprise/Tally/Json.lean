import Reprise.Json.Basic
import Reprise.Tally.Basic

set_option autoImplicit false

namespace Reprise

namespace Tally

def toJson (t : Tally) : Json :=
  .object <|
    Counter.all.map (fun c => (c.name, .nat (t.count c).toNat))
    ++ Timer.all.map fun timer => (timer.name, .nat (t.time timer).toNat)

end Tally

end Reprise
