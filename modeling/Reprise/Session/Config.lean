import Reprise.Fault
import Reprise.Json.Decode
import Reprise.Toml.Document
import Reprise.Toml.Quote
import Reprise.Toml.Read

/-!
The configuration of a session, with a default for every field, and its JSON and TOML forms.
-/
set_option autoImplicit false

namespace Reprise

structure Config where
  /-- Candidates fetched for each lookup of a model or core. -/
  candidates : Nat := 10
  /-- The values of the probes, in the order they are tried. -/
  references : List Int64 := [-10000, 0, 100]
  /-- The beginning of the table keys of this session's entries. -/
  storeName : String := "grulia"
  /-- Where entries are kept; without it they live as long as the session. -/
  dataDir : Option String := none
  /-- Assignments the bundled oracle may try. -/
  budget : Nat := 1000000
deriving DecidableEq, Inhabited

namespace Config

/-- Refuses what a session cannot run with; the first thing wrong is named. -/
def validate (c : Config) : Except SessionFault Unit :=
  if c.candidates = 0 then .error (.invalidConfig "k must be > 0")
  else if c.references.isEmpty then
    .error (.invalidConfig "reference_values must not be empty")
  else if c.storeName.isEmpty || c.storeName.toList.any (fun ch => ch == '*' || ch == ':') then
    .error (.invalidConfig "store_prefix must be non-empty and contain neither '*' nor ':'")
  else .ok ()

def toJson (c : Config) : Json :=
  .object <|
    [("k", .nat c.candidates), ("reference_values", .array (c.references.map Json.int64)),
      ("store_prefix", .text c.storeName)]
    ++ (match c.dataDir with
      | some dir => [("data_dir", .text dir)]
      | none => [])
    ++ [("oracle", .object [("max_assignments", .nat c.budget)])]

def oracleFields : List (Json.Field Config) :=
  [.of "max_assignments" Json.asCount fun c n => { c with budget := n }]

def fields : List (Json.Field Config) :=
  [.of "k" Json.asCount fun c n => { c with candidates := n },
   .of "reference_values" (Json.asList Json.asInt64) fun c rs => { c with references := rs },
   .of "store_prefix" Json.asText fun c s => { c with storeName := s },
   .of "data_dir" (Json.asOption Json.asText) fun c dir => { c with dataDir := dir },
   ⟨"oracle", fun j c => j.asRecord oracleFields 0 c⟩]

def ofJson (j : Json) : Except DecodeFault Config := j.asRecord fields 0 {}

/-- An array in place of a record; only as many items as it has fields are looked at. -/
def firstItems (count : Nat) : Json → Json
  | .array items => .array (items.take count)
  | j => j

def ofToml (entries : Toml.Fields) : Except DecodeFault Config :=
  ofJson <| .object <| entries.map fun (name, value) =>
    (name, if name = "oracle" then firstItems oracleFields.length value.document else value.document)

def parse? (text : String) : Option Config :=
  match (Toml.parse? text).map ofToml with
  | some (.ok c) => some c
  | _ => none

/-- Numbers in TOML are signed. -/
def tomlNumber? (n : Nat) : Option String := if n < 1 <<< 63 then some (toString n) else none

/-- More than one item stand on lines of their own. -/
def tomlArray (items : List String) : String :=
  if items.length < 2 then "[" ++ String.intercalate ", " items ++ "]"
  else "[\n" ++ String.join (items.map fun item => "    " ++ item ++ ",\n") ++ "]"

/-- The text of a configuration file; a number may be too large for one. -/
def toToml? (c : Config) : Option String := do
  let candidates ← tomlNumber? c.candidates
  let budget ← tomlNumber? c.budget
  some <|
    "k = " ++ candidates ++ "\n"
    ++ "reference_values = " ++ tomlArray (c.references.map fun r => toString r.toInt) ++ "\n"
    ++ "store_prefix = " ++ Toml.quote c.storeName ++ "\n"
    ++ (match c.dataDir with
      | some dir => "data_dir = " ++ Toml.quote dir ++ "\n"
      | none => "")
    ++ "\n[oracle]\nmax_assignments = " ++ budget ++ "\n"

end Config

end Reprise
