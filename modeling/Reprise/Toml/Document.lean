import Reprise.Json.Basic
import Reprise.Toml.Basic

/-!
TOML values as documents, to be decoded like any other. A float keeps no value, and a date is an
object without a field that a record could know.
-/
set_option autoImplicit false

namespace Reprise

namespace Toml

mutual

def document : Toml → Json
  | .text s => .text s
  | .int n => .int n
  | .float => .float Binary64.nan
  | .bool b => .bool b
  | .date => .object [("", .text "")]
  | .array items => .array (documentItems items)
  | .table _ fields => .object (documentFields fields)
  | .tables items => .array (documentTables items)

def documentItems : List Toml → List Json
  | [] => []
  | item :: rest => item.document :: documentItems rest

def documentFields : List (String × Toml) → List (String × Json)
  | [] => []
  | (name, value) :: rest => (name, value.document) :: documentFields rest

def documentTables : List (List (String × Toml)) → List Json
  | [] => []
  | fields :: rest => .object (documentFields fields) :: documentTables rest

end

end Toml

end Reprise
