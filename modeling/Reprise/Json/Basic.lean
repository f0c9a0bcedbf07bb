import Reprise.Decimal.Notation

/-!
JSON documents. Whole numbers of 64 bits are kept apart from doubles. A document that was read from a
text which stops being JSON somewhere ends there in a `fault`; what comes before it can still be
looked at, so that the first thing wrong in a text is the one that is reported. A part that is JSON but
has no value here, as a number beyond the doubles has none, does no harm where nobody looks at it.
-/
set_option autoImplicit false

namespace Reprise

inductive Json where
  | null
  | bool (b : Bool)
  | int (n : Int)
  | float (x : Binary64)
  | text (s : String)
  | array (items : List Json)
  /-- Fields in the order of the text, repeated names included. -/
  | object (fields : List (String × Json))
  /-- A part without a value: a text with half a character, a number beyond the doubles, or a part
  that lies too deep. -/
  | void
  /-- In place of the rest of an object, from a field on whose name is no text. -/
  | nameless
  | fault
deriving Inhabited

namespace Json

def int64 (n : Int64) : Json := .int n.toInt

def nat (n : Nat) : Json := .int n

/-- A double; JSON has no text for one that is not finite. -/
def real (x : Binary64) : Json := if x.isFinite then .float x else .null

def field? (name : String) : Json → Option Json
  | .object fields => fields.lookup name
  | _ => none

mutual

/-- The number of arrays and objects that stand one inside the other. -/
def depth : Json → Nat
  | .array items => depthOfItems items + 1
  | .object fields => depthOfFields fields + 1
  | _ => 0

def depthOfItems : List Json → Nat
  | [] => 0
  | item :: rest => max item.depth (depthOfItems rest)

def depthOfFields : List (String × Json) → Nat
  | [] => 0
  | (_, value) :: rest => max value.depth (depthOfFields rest)

end

end Json

end Reprise
