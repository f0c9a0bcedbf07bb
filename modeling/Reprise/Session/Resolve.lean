import Reprise.Json.Answer
import Reprise.Lookup.Core
import Reprise.Lookup.Model
import Reprise.Session.Basic

/-!
Resolving a query by the cheapest way that answers it: a reference probe, a model found earlier, a
core found earlier, and at last one question to the oracle, whose answer is kept.
-/
set_option autoImplicit false

namespace Reprise

inductive Source where
  | referenceProbe
  | modelReuse
  | coreReuse
  | oracle
deriving DecidableEq

namespace Source

def text : Source → String
  | .referenceProbe => "reference-probe"
  | .modelReuse => "model-reuse"
  | .coreReuse => "core-reuse"
  | .oracle => "oracle"

def toJson : Source → Json
  | .referenceProbe => .text "reference_probe"
  | .modelReuse => .text "model_reuse"
  | .coreReuse => .text "core_reuse"
  | .oracle => .text "oracle"

end Source

def SatDelta.toJson : SatDelta → Json
  | .satisfied reference =>
    .object [("satisfied", .object [("reference", .int64 reference), ("delta", .real 0)])]
  | .distance mean => .object [("distance", .real mean)]

structure Resolution where
  verdict : Verdict
  source : Source
  satDelta : SatDelta
deriving DecidableEq

def Resolution.toJson (r : Resolution) : Json :=
  .object [("verdict", r.verdict.toJson), ("source", r.source.toJson), ("sat_delta", r.satDelta.toJson)]

namespace Session

variable {τ ω : Type} [Table τ]

def bump (s : Session τ) (c : Counter) : Session τ := { s with tally := s.tally.bump c }

/-- The reference assignment as an answer: it must lie within the bounds and satisfy the query, for
the probe only measures what it can read. -/
def probeModel (e : Expr) (reference : Int64) : Except ExprFault (Option Model) :=
  if e.vars.any fun v => !v.admits reference then .ok none
  else
    let m := e.referenceModel reference
    match e.satisfies m with
    | .ok true => .ok (some m)
    | .ok false | .error (.divisionByZero _) => .ok none
    | .error f => .error f

def byProbe (e : Expr) (delta : SatDelta) : Except ExprFault (Option Model) :=
  match delta.satisfiedBy? with
  | some reference => probeModel e reference
  | none => .ok none

def byOracle (ask : Oracle ω) (e : Expr) (delta : SatDelta) (s : Session τ) (w : ω) :
    Except Fault Resolution × Session τ × ω :=
  let s := s.bump .oracleCalls
  let (outcome, w) := ask e w
  match outcome.bind Outcome.verdict with
  | .error f => (.error (.oracle f), s.bump .oracleFailures, w)
  | .ok (.sat m) =>
    let models := s.models.insert ⟨delta.value, e.vars.length, m⟩
    (.ok ⟨.sat m, .oracle, delta⟩, { s with models := models }.bump .satEntriesAdded, w)
  | .ok (.unsat c) =>
    let cores := s.cores.insert ⟨delta.value, e.vars.length, c⟩
    (.ok ⟨.unsat c, .oracle, delta⟩, { s with cores := cores }.bump .unsatEntriesAdded, w)

def byCore (ask : Oracle ω) (e : Expr) (delta : SatDelta) (s : Session τ) (w : ω) :
    Except Fault Resolution × Session τ × ω :=
  let (found, tally) := Lookup.findCore s.cores delta.value e s.config.candidates s.tally
  let s := { s with tally := tally }
  match found with
  | some c => (.ok ⟨.unsat c, .coreReuse, delta⟩, s.bump .unsatCacheHits, w)
  | none => byOracle ask e delta (s.bump .unsatCacheMisses) w

def byModel (ask : Oracle ω) (e : Expr) (delta : SatDelta) (s : Session τ) (w : ω) :
    Except Fault Resolution × Session τ × ω :=
  let (found, tally) :=
    Lookup.findModel s.models delta.value e e.vars.length s.config.candidates s.tally
  let s := { s with tally := tally }
  match found with
  | .error f => (.error (.expr f), s.bump .traversalErrors, w)
  | .ok (some m) => (.ok ⟨.sat m, .modelReuse, delta⟩, s.bump .satCacheHits, w)
  | .ok none => byCore ask e delta (s.bump .satCacheMisses) w

def answer (ask : Oracle ω) (e : Expr) (s : Session τ) (w : ω) :
    Except Fault Resolution × Session τ × ω :=
  match s.satDelta e with
  | (.error f, s) => (.error (.expr f), s.bump .traversalErrors, w)
  | (.ok delta, s) =>
    match byProbe e delta with
    | .error f => (.error (.expr f), s.bump .traversalErrors, w)
    | .ok (some m) => (.ok ⟨.sat m, .referenceProbe, delta⟩, s.bump .probeHits, w)
    | .ok none => byModel ask e delta s w

/-- Resolves one query. A query that fails leaves the answers as they are. -/
def resolve (ask : Oracle ω) (e : Expr) (s : Session τ) (w : ω) :
    Except Fault Resolution × Session τ × ω :=
  let (result, s, w) := answer ask e (s.bump .invocations) w
  match result with
  | .error f => (.error f, s, w)
  | .ok r => (.ok r, s.bump (if r.verdict.isSat then .satQueries else .unsatQueries), w)

/-- Whether a query is not settled by its distance and the answers are looked through. -/
def looksUp (e : Expr) (s : Session τ) : Bool :=
  match s.satDelta e with
  | (.error _, _) => false
  | (.ok delta, _) => (byProbe e delta).toOption = some none

/-- Whether one of the queries comes to a lookup among more candidates than room can be reserved for.
Up to it no other lookup is made, so only distances are noted. -/
def overreaches : List Expr → Session τ → Bool
  | [], _ => false
  | e :: rest, s =>
    Cache.reservable < s.config.candidates && s.looksUp e || overreaches rest (s.satDelta e).2

def resolveAll (ask : Oracle ω) : List Expr → Session τ → ω →
    List (Except Fault Resolution) × Session τ × ω
  | [], s, w => ([], s, w)
  | e :: rest, s, w =>
    let (result, s, w) := resolve ask e s w
    let (results, s, w) := resolveAll ask rest s w
    (result :: results, s, w)

end Session

end Reprise
