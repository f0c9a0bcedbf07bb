import Reprise.Cache.Persistence
import Reprise.Distance.Basic
import Reprise.Session.Config
import Reprise.Solver.Minimise
import Reprise.Tally.Basic

/-!
A session of the solution cache: its configuration, the distances and answers it has gathered, the
table its answers are kept in, if any, and its counts.
-/
set_option autoImplicit false

namespace Reprise

structure Session (τ : Type) where
  config : Config
  deltas : DeltaTable
  models : Cache Model
  cores : Cache Core
  table : Option τ
  tally : Tally

structure SessionInfo where
  candidates : Nat
  references : List Int64
  storeName : String
  satEntries : Nat
  unsatEntries : Nat
  recordedDeltas : Nat
  persistent : Bool
deriving DecidableEq

namespace SessionInfo

def toJson (i : SessionInfo) : Json :=
  .object
    [("k", .nat i.candidates), ("reference_values", .array (i.references.map Json.int64)),
      ("store_prefix", .text i.storeName), ("sat_entries", .nat i.satEntries),
      ("unsat_entries", .nat i.unsatEntries), ("recorded_deltas", .nat i.recordedDeltas),
      ("persistent", .bool i.persistent)]

def text (i : SessionInfo) : String :=
  "grulia engine info\n"
    ++ "  k:              " ++ toString i.candidates ++ "\n"
    ++ "  references:     [" ++ String.intercalate ", " (i.references.map fun r => toString r.toInt)
    ++ "]\n"
    ++ "  store prefix:   " ++ i.storeName ++ "\n"
    ++ "  sat entries:    " ++ toString i.satEntries ++ "\n"
    ++ "  unsat entries:  " ++ toString i.unsatEntries ++ "\n"
    ++ "  deltas:         " ++ toString i.recordedDeltas ++ "\n"
    ++ "  persistent:     " ++ (if i.persistent then "true" else "false") ++ "\n"

end SessionInfo

namespace Session

variable {τ : Type} [Table τ]

def warmLoad (s : Session τ) : Session τ :=
  match s.table with
  | none => s
  | some table =>
    let (modelCount, models) := s.models.load s.config.storeName table
    let (coreCount, cores) := s.cores.load s.config.storeName table
    { s with
      models := models
      cores := cores
      tally := s.tally.add .entriesWarmLoaded (UInt64.ofNat (modelCount + coreCount)) }

def start (config : Config) (table : Option τ) : Except SessionFault (Session τ) :=
  match config.validate with
  | .error f => .error f
  | .ok () => .ok (warmLoad ⟨config, .empty, .empty, .empty, table, .empty⟩)

def satDelta (s : Session τ) (e : Expr) : Except ExprFault SatDelta × Session τ :=
  let (result, deltas) := s.deltas.getOrCompute e s.config.references
  (result.map Prod.fst, { s with deltas := deltas })

def persist (s : Session τ) : FlushReport × Session τ :=
  match s.table with
  | none => (⟨0, 0⟩, s)
  | some table =>
    let (models, table) := s.models.flush s.config.storeName table
    let (cores, table) := s.cores.flush s.config.storeName table
    (models.add cores, { s with table := some table })

/-- Forgets all answers and distances; the table and the counts stay. -/
def clear (s : Session τ) : Session τ :=
  { s with models := .empty, cores := .empty, deltas := .empty }

def info (s : Session τ) : SessionInfo where
  candidates := s.config.candidates
  references := s.config.references
  storeName := s.config.storeName
  satEntries := s.models.size
  unsatEntries := s.cores.size
  recordedDeltas := s.deltas.size
  persistent := s.table.isSome

end Session

end Reprise
