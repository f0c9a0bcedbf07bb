/-!
Usage counters and timers of a session: 64-bit numbers that wrap.
-/
set_option autoImplicit false

namespace Reprise

inductive Counter where
  | invocations
  | satQueries
  | unsatQueries
  | probeHits
  | satCacheHits
  /-- Model lookups without a usable candidate. -/
  | satCacheMisses
  | unsatCacheHits
  /-- Core lookups without a contained candidate. -/
  | unsatCacheMisses
  | oracleCalls
  | modelsTested
  | modelsReused
  | coresTested
  | coresReused
  | satEntriesAdded
  | unsatEntriesAdded
  | entriesWarmLoaded
  /-- Reused models smaller than the query. -/
  | cacheInconsistencies
  | traversalErrors
  | oracleFailures
deriving DecidableEq, Inhabited

namespace Counter

def all : List Counter :=
  [.invocations, .satQueries, .unsatQueries, .probeHits, .satCacheHits, .satCacheMisses,
   .unsatCacheHits, .unsatCacheMisses, .oracleCalls, .modelsTested, .modelsReused, .coresTested,
   .coresReused, .satEntriesAdded, .unsatEntriesAdded, .entriesWarmLoaded, .cacheInconsistencies,
   .traversalErrors, .oracleFailures]

def name : Counter → String
  | .invocations => "invocations"
  | .satQueries => "sat_queries"
  | .unsatQueries => "unsat_queries"
  | .probeHits => "probe_hits"
  | .satCacheHits => "sat_cache_hits"
  | .satCacheMisses => "sat_cache_misses"
  | .unsatCacheHits => "unsat_cache_hits"
  | .unsatCacheMisses => "unsat_cache_misses"
  | .oracleCalls => "oracle_calls"
  | .modelsTested => "models_tested"
  | .modelsReused => "models_reused"
  | .coresTested => "cores_tested"
  | .coresReused => "cores_reused"
  | .satEntriesAdded => "sat_entries_added"
  | .unsatEntriesAdded => "unsat_entries_added"
  | .entriesWarmLoaded => "entries_warm_loaded"
  | .cacheInconsistencies => "cache_inconsistencies"
  | .traversalErrors => "traversal_errors"
  | .oracleFailures => "oracle_failures"

def index (c : Counter) : Fin 19 := ⟨c.ctorIdx, by cases c <;> decide⟩

theorem all_getElem?_index (c : Counter) : all[c.index.val]? = some c := by
  cases c <;> rfl

theorem index_injective {a b : Counter} (h : a.index = b.index) : a = b :=
  Option.some.inj <| (all_getElem?_index a).symm.trans <| h ▸ all_getElem?_index b

end Counter

inductive Timer where
  | total
  | sat
  | unsat
  | cacheLoad
  | satDelta
  | modelExtraction
  | modelTesting
  | modelEvaluation
  | coreExtraction
  | coreTesting
  | satCacheCheck
  | unsatCacheCheck
  | oracle
deriving DecidableEq, Inhabited

namespace Timer

def all : List Timer :=
  [.total, .sat, .unsat, .cacheLoad, .satDelta, .modelExtraction, .modelTesting, .modelEvaluation,
   .coreExtraction, .coreTesting, .satCacheCheck, .unsatCacheCheck, .oracle]

def name : Timer → String
  | .total => "total_time"
  | .sat => "sat_time"
  | .unsat => "unsat_time"
  | .cacheLoad => "cache_load_time"
  | .satDelta => "sat_delta_time"
  | .modelExtraction => "model_extraction_time"
  | .modelTesting => "model_testing_time"
  | .modelEvaluation => "model_evaluation_time"
  | .coreExtraction => "core_extraction_time"
  | .coreTesting => "core_testing_time"
  | .satCacheCheck => "sat_cache_check_time"
  | .unsatCacheCheck => "unsat_cache_check_time"
  | .oracle => "oracle_time"

def index (t : Timer) : Fin 13 := ⟨t.ctorIdx, by cases t <;> decide⟩

end Timer

structure Tally where
  counts : Vector UInt64 19
  micros : Vector UInt64 13
deriving DecidableEq

namespace Tally

def empty : Tally := ⟨Vector.replicate 19 0, Vector.replicate 13 0⟩

instance : Inhabited Tally := ⟨empty⟩

def count (t : Tally) (c : Counter) : UInt64 := t.counts[c.index]

def add (t : Tally) (c : Counter) (n : UInt64) : Tally :=
  { t with counts := t.counts.set c.index (t.count c + n) }

def bump (t : Tally) (c : Counter) : Tally := t.add c 1

def time (t : Tally) (timer : Timer) : UInt64 := t.micros[timer.index]

/-- Adds elapsed time, held within 64 bits of microseconds. -/
def record (t : Tally) (timer : Timer) (seconds nanoseconds : Nat) : Tally :=
  let elapsed := min (seconds * 1000000 + nanoseconds / 1000) (1 <<< 64 - 1)
  { t with micros := t.micros.set timer.index (t.time timer + UInt64.ofNat elapsed) }

theorem count_add (t : Tally) (c d : Counter) (n : UInt64) :
    (t.add c n).count d = if c = d then t.count c + n else t.count d := by
  by_cases h : c = d
  · subst h
    simp [add, count]
  · have apart : (c.index : Nat) ≠ d.index := fun same => h (Counter.index_injective (Fin.ext same))
    simp [add, count, h, apart]

def column (name : String) : String :=
  name ++ String.ofList (List.replicate (24 - name.length) ' ')

def report (t : Tally) : String :=
  let counters := Counter.all.map fun c =>
    "  " ++ column c.name ++ " = " ++ toString (t.count c).toNat ++ "\n"
  let timers := Timer.all.map fun timer =>
    "  " ++ column timer.name ++ " = " ++ toString (t.time timer).toNat ++ " us\n"
  "grulia cache statistics\n" ++ String.join counters ++ String.join timers

end Tally

end Reprise
