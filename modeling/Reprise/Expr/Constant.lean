import Reprise.Decimal.Notation

set_option autoImplicit false

namespace Reprise

inductive Constant where
  | int (value : Int64)
  | real (value : Binary64)
  | bitVec (value : Int64) (width : UInt32)
deriving DecidableEq, Inhabited

namespace Constant

/-- The value as a whole number; a real has none. -/
def asInt : Constant → Option Int64
  | .int value => some value
  | .bitVec value _ => some value
  | .real _ => none

def text : Constant → String
  | .int value => toString value.toInt
  | .bitVec value _ => toString value.toInt
  | .real value => value.text

/-- Equality of kind, width and number. Two real zeros agree whatever their sign. -/
def equals : Constant → Constant → Bool
  | .int a, .int b => a == b
  | .real a, .real b => a.equals b
  | .bitVec a v, .bitVec b w => a == b && v == w
  | _, _ => false

end Constant

end Reprise
