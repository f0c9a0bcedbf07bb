import Reprise.Json.Basic
import Reprise.Ordered.Map

/-!
Objects whose fields stand in the order of their names, each name once: what is left of a document
when the order of its text does not count.
-/
set_option autoImplicit false

namespace Reprise

namespace Json

mutual

/-- Of several fields of one name the last counts. -/
def normal : Json → Json
  | .array items => .array (normalItems items)
  | .object fields => .object (OrderedMap.ofList (normalFields fields)).entries
  | leaf => leaf

def normalItems : List Json → List Json
  | [] => []
  | item :: rest => item.normal :: normalItems rest

def normalFields : List (String × Json) → List (String × Json)
  | [] => []
  | (name, value) :: rest => (name, value.normal) :: normalFields rest

end

end Json

end Reprise
