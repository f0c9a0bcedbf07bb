import Reprise.Distance.Probe
import Reprise.Expr.Canonical

/-!
The distance of a constraint: the number under which its answer is cached. If a probe is satisfied
the distance is zero and the first such reference is remembered; otherwise it is the mean of the
violations.
-/
set_option autoImplicit false

namespace Reprise

inductive SatDelta where
  /-- The probe of this reference satisfies the constraint. -/
  | satisfied (reference : Int64)
  /-- No probe does; the mean violation. -/
  | distance (mean : Binary64)
deriving DecidableEq

namespace SatDelta

def value : SatDelta → Binary64
  | .satisfied _ => 0
  | .distance mean => mean

def satisfiedBy? : SatDelta → Option Int64
  | .satisfied reference => some reference
  | .distance _ => none

/-- Probes the references in turn up to the first that satisfies; `total` is the sum so far and
`count` the number of all references. -/
def probeAll (e : Expr) (count : Nat) : List Int64 → Binary64 → Except ExprFault SatDelta
  | [], total => .ok (.distance (total.divNat count))
  | reference :: rest, total =>
    match e.probe reference with
    | .error f => .error f
    | .ok delta =>
      if delta = 0 then .ok (.satisfied reference)
      else probeAll e count rest (total.add (Binary64.ofInt delta.toInt))

def compute (e : Expr) (references : List Int64) : Except ExprFault SatDelta :=
  if references.isEmpty then .ok (.distance 0)
  else probeAll e references.length references 0

def text : SatDelta → String
  | .satisfied reference => "0, satisfied at " ++ toString reference.toInt
  | .distance mean => mean.fixedText 3

end SatDelta

/-- Distances already computed, by canonical text. Once recorded they stay. -/
structure DeltaTable where
  recorded : OrderedMap String SatDelta
deriving Inhabited

namespace DeltaTable

def empty : DeltaTable := ⟨OrderedMap.empty⟩

def size (t : DeltaTable) : Nat := t.recorded.size

def get? (t : DeltaTable) (e : Expr) : Option SatDelta := t.recorded.get? e.canonical

/-- The recorded distance, or the computed one, which is recorded; the flag tells whether it was
computed now. -/
def getOrCompute (t : DeltaTable) (e : Expr) (references : List Int64) :
    Except ExprFault (SatDelta × Bool) × DeltaTable :=
  let text := e.canonical
  match t.recorded.get? text with
  | some delta => (.ok (delta, false), t)
  | none =>
    match SatDelta.compute e references with
    | .error f => (.error f, t)
    | .ok delta => (.ok (delta, true), ⟨t.recorded.insert text delta⟩)

end DeltaTable

end Reprise
