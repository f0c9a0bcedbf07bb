import Reprise.Fault
import Reprise.Wire.Basic

/-!
Tables that keep bytes under text keys beyond the life of a session. Keys are asked for by a pattern:
one key, or all keys that begin with the text before a final star.
-/
set_option autoImplicit false

namespace Reprise

/-- What a table of persisted bytes can do. A refused write leaves the table as it was. -/
class Table (τ : Type) where
  get? : τ → String → Except StoreFault (Option Bytes)
  put : τ → String → Bytes → Except StoreFault τ
  keysMatching : τ → String → Except StoreFault (List String)

namespace Pattern

/-- The text before a final star. -/
def stem? (pattern : String) : Option String :=
  match pattern.toList.reverse with
  | '*' :: stem => some (String.ofList stem.reverse)
  | _ => none

def begins (stem text : String) : Bool := stem.toList.isPrefixOf text.toList

/-- Only one star at the end counts; any other is a character like the rest. -/
def accepts (pattern key : String) : Bool :=
  match stem? pattern with
  | some stem => begins stem key
  | none => key == pattern

end Pattern

end Reprise
