import Reprise.Tally.Basic

/-!
The equations between the counts of queries. All of them compare sums, so they hold after a query if
they held before it and hold of the counters that it bumps.
-/
set_option autoImplicit false

namespace Reprise

namespace Tally

@[simp] theorem count_empty (c : Counter) : empty.count c = 0 := by simp [empty, count]

def bumpAll (t : Tally) (trail : List Counter) : Tally := trail.foldl bump t

theorem bumpAll_append (t : Tally) (first second : List Counter) :
    t.bumpAll (first ++ second) = (t.bumpAll first).bumpAll second := List.foldl_append

theorem count_bumpAll (t : Tally) (trail : List Counter) (c : Counter) :
    (t.bumpAll trail).count c = t.count c + UInt64.ofNat (trail.count c) := by
  induction trail generalizing t with
  | nil => exact (UInt64.add_zero _).symm
  | cons first rest ih =>
    have later : (t.bumpAll (first :: rest)).count c =
        (t.bump first).count c + UInt64.ofNat (rest.count c) := ih (t.bump first)
    rw [later, bump, count_add, List.count_cons]
    by_cases same : first = c
    · rw [if_pos same, if_pos (beq_iff_eq.mpr same), UInt64.ofNat_add, same, UInt64.add_assoc,
        UInt64.add_comm 1]
      rfl
    · rw [if_neg same, if_neg (by simpa using same), Nat.add_zero]

end Tally

/-- The equations between the counts of queries. -/
structure Balanced {ν : Type} [Add ν] (count : Counter → ν) : Prop where
  results : count .invocations = count .satQueries + count .unsatQueries + count .traversalErrors
    + count .oracleFailures
  modelLookups : count .invocations = count .probeHits + count .satCacheHits + count .satCacheMisses
    + count .traversalErrors
  coreLookups : count .satCacheMisses = count .unsatCacheHits + count .unsatCacheMisses
  questions : count .unsatCacheMisses = count .oracleCalls
  answers : count .oracleCalls = count .oracleFailures + count .satEntriesAdded
    + count .unsatEntriesAdded
  sat : count .satQueries = count .probeHits + count .satCacheHits + count .satEntriesAdded
  unsat : count .unsatQueries = count .unsatCacheHits + count .unsatEntriesAdded
  models : count .modelsReused = count .satCacheHits
  cores : count .coresReused = count .unsatCacheHits

namespace Balanced

theorem add {f g : Counter → UInt64} (hf : Balanced f) (hg : Balanced g) :
    Balanced fun c => f c + g c := by
  cases hf
  cases hg
  constructor <;> grind

theorem ofNat {f : Counter → Nat} (h : Balanced f) : Balanced fun c => UInt64.ofNat (f c) where
  results := by rw [h.results, UInt64.ofNat_add, UInt64.ofNat_add, UInt64.ofNat_add]
  modelLookups := by rw [h.modelLookups, UInt64.ofNat_add, UInt64.ofNat_add, UInt64.ofNat_add]
  coreLookups := by rw [h.coreLookups, UInt64.ofNat_add]
  questions := by rw [h.questions]
  answers := by rw [h.answers, UInt64.ofNat_add, UInt64.ofNat_add]
  sat := by rw [h.sat, UInt64.ofNat_add, UInt64.ofNat_add]
  unsat := by rw [h.unsat, UInt64.ofNat_add]
  models := by rw [h.models]
  cores := by rw [h.cores]

theorem bumpAll {t : Tally} {trail : List Counter} (before : Balanced t.count)
    (passed : Balanced fun c => trail.count c) : Balanced (t.bumpAll trail).count := by
  have counts : (t.bumpAll trail).count = fun c => t.count c + UInt64.ofNat (trail.count c) :=
    funext (t.count_bumpAll trail)
  rw [counts]
  exact before.add passed.ofNat

end Balanced

end Reprise
