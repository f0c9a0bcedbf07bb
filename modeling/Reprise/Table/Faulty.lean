import Reprise.Table.Basic

/-!
Tables that fail on demand, to say how the cache bears the failures of a table.
-/
set_option autoImplicit false

namespace Reprise

structure Outage where
  listing : Bool
  reads : String → Bool
  /-- Keys that seem to have no value. -/
  missing : String → Bool
  writes : String → Bool

def Outage.none : Outage := ⟨false, fun _ => false, fun _ => false, fun _ => false⟩

structure FaultyTable (τ : Type) where
  table : τ
  outage : Outage

namespace FaultyTable

variable {τ : Type} [Table τ]

def fault : StoreFault := .transaction "injected"

instance : Table (FaultyTable τ) where
  get? t key :=
    if t.outage.reads key then .error fault
    else if t.outage.missing key then .ok none
    else Table.get? t.table key
  put t key value :=
    if t.outage.writes key then .error fault
    else (Table.put t.table key value).map fun table => { t with table }
  keysMatching t pattern :=
    if t.outage.listing then .error fault else Table.keysMatching t.table pattern

end FaultyTable

end Reprise
