import Reprise.Proofs.Cache.Inserted
import Reprise.Proofs.Lookup.Counters
import Reprise.Session.Resolve

/-!
What one query counts. The counters that it bumps are a trail of the way it takes: each stage counts
how it ends, and one that finds nothing is followed by the next. An entry is counted as it is added.
-/
set_option autoImplicit false

namespace Reprise

theorem Cache.length_entries_insert {α : Type} (c : Cache α) (e : Entry α) :
    (c.insert e).entries.length = c.entries.length + 1 := by
  rw [length_entries, length_entries]
  exact (perm_insertSlot ..).length_eq

namespace Session

inductive OracleTrail : Except Fault Resolution → List Counter → Prop
  | failed {f : OracleFault} : OracleTrail (.error (.oracle f)) [.oracleCalls, .oracleFailures]
  | sat {m : Model} {delta : SatDelta} :
    OracleTrail (.ok ⟨.sat m, .oracle, delta⟩) [.oracleCalls, .satEntriesAdded]
  | unsat {c : Core} {delta : SatDelta} :
    OracleTrail (.ok ⟨.unsat c, .oracle, delta⟩) [.oracleCalls, .unsatEntriesAdded]

inductive CoreTrail : Except Fault Resolution → List Counter → Prop
  | hit {c : Core} {delta : SatDelta} (n : Nat) : CoreTrail (.ok ⟨.unsat c, .coreReuse, delta⟩)
    (List.replicate n .coresTested ++ [.coresReused, .unsatCacheHits])
  | miss {result : Except Fault Resolution} {trail : List Counter} (n : Nat) :
    OracleTrail result trail →
    CoreTrail result (List.replicate n .coresTested ++ .unsatCacheMisses :: trail)

inductive ModelTrail (size : Nat) : Except Fault Resolution → List Counter → Prop
  | stopped {f : ExprFault} (n : Nat) : ModelTrail size (.error (.expr f))
    (List.replicate n .modelsTested ++ [.traversalErrors])
  | hit {m : Model} {delta : SatDelta} (n : Nat) : ModelTrail size (.ok ⟨.sat m, .modelReuse, delta⟩)
    (List.replicate n .modelsTested ++ Lookup.takenModel size m ++ [.satCacheHits])
  | miss {result : Except Fault Resolution} {trail : List Counter} (n : Nat) :
    CoreTrail result trail →
    ModelTrail size result (List.replicate n .modelsTested ++ .satCacheMisses :: trail)

inductive AnswerTrail (size : Nat) : Except Fault Resolution → List Counter → Prop
  | stopped {f : ExprFault} : AnswerTrail size (.error (.expr f)) [.traversalErrors]
  | probe {m : Model} {delta : SatDelta} :
    AnswerTrail size (.ok ⟨.sat m, .referenceProbe, delta⟩) [.probeHits]
  | searched {result : Except Fault Resolution} {trail : List Counter} :
    ModelTrail size result trail → AnswerTrail size result trail

inductive QueryTrail (size : Nat) : Except Fault Resolution → List Counter → Prop
  | error {f : Fault} {trail : List Counter} : AnswerTrail size (.error f) trail →
    QueryTrail size (.error f) (.invocations :: trail)
  | ok {r : Resolution} {trail : List Counter} : AnswerTrail size (.ok r) trail →
    QueryTrail size (.ok r)
      (.invocations :: trail ++ [if r.verdict.isSat then .satQueries else .unsatQueries])

theorem QueryTrail.balanced {size : Nat} {result : Except Fault Resolution} {trail : List Counter}
    (h : QueryTrail size result trail) : Balanced fun c => trail.count c := by
  cases h with
  | error way =>
    cases way with
    | stopped => constructor <;> rfl
    | searched way =>
      cases way with
      | stopped n => constructor <;> simp [List.count_replicate]
      | miss n way =>
        cases way with
        | miss k way => cases way; constructor <;> simp [List.count_replicate]
  | ok way =>
    cases way with
    | probe => constructor <;> rfl
    | searched way =>
      cases way with
      | hit n =>
        constructor <;> simp [List.count_replicate, Lookup.count_takenModel, Verdict.isSat]
      | miss n way =>
        cases way with
        | hit k => constructor <;> simp [List.count_replicate, Verdict.isSat]
        | miss k way =>
          cases way <;> constructor <;>
            simp [List.count_replicate, Verdict.isSat]

variable {τ ω : Type} {ask : Oracle ω} {e : Expr} {delta : SatDelta} {s s' s'' : Session τ} {w : ω}
variable {trail : List Counter}

def entryCounters : List Counter := [.satEntriesAdded, .unsatEntriesAdded, .entriesWarmLoaded]

/-- The tally goes on by the trail, and the caches by the entries that the trail counts. -/
structure Counted (trail : List Counter) (s s' : Session τ) : Prop where
  tally : s'.tally = s.tally.bumpAll trail
  models : s'.models.entries.length = s.models.entries.length + trail.count .satEntriesAdded
  cores : s'.cores.entries.length = s.cores.entries.length + trail.count .unsatEntriesAdded
  noneLoaded : trail.count .entriesWarmLoaded = 0

theorem Counted.trans {later : List Counter} (first : Counted trail s s')
    (second : Counted later s' s'') : Counted (trail ++ later) s s'' where
  tally := by rw [second.tally, first.tally, Tally.bumpAll_append]
  models := by rw [second.models, first.models, List.count_append, Nat.add_assoc]
  cores := by rw [second.cores, first.cores, List.count_append, Nat.add_assoc]
  noneLoaded := by rw [List.count_append, first.noneLoaded, second.noneLoaded]

theorem counted_all (t : Tally) (h : t = s.tally.bumpAll trail) (absent : ∀ c ∈ entryCounters, c ∉ trail) :
    Counted trail s { s with tally := t } where
  tally := h
  models := by rw [List.count_eq_zero_of_not_mem (absent _ (by decide)), Nat.add_zero]
  cores := by rw [List.count_eq_zero_of_not_mem (absent _ (by decide)), Nat.add_zero]
  noneLoaded := List.count_eq_zero_of_not_mem (absent _ (by decide))

theorem counted_bump (c : Counter) (other : c ∉ entryCounters) : Counted [c] s (s.bump c) :=
  counted_all _ rfl fun _ mem same => other (List.mem_singleton.mp same ▸ mem)

theorem byOracle_counted : ∃ trail, OracleTrail (byOracle ask e delta s w).1 trail ∧
    Counted trail s (byOracle ask e delta s w).2.1 := by
  rw [byOracle]
  simp only
  split
  · exact ⟨_, .failed, rfl, rfl, rfl, rfl⟩
  · exact ⟨_, .sat, rfl, s.models.length_entries_insert _, rfl, rfl⟩
  · exact ⟨_, .unsat, rfl, rfl, s.cores.length_entries_insert _, rfl⟩

theorem byCore_counted : ∃ trail, CoreTrail (byCore ask e delta s w).1 trail ∧
    Counted trail s (byCore ask e delta s w).2.1 := by
  obtain ⟨n, tally⟩ := Lookup.findCore_tally s.cores delta.value e s.config.candidates s.tally
  rw [byCore]
  cases searched : Lookup.findCore s.cores delta.value e s.config.candidates s.tally with
  | mk found t =>
    rw [searched] at tally
    have looked : Counted _ s { s with tally := t } :=
      counted_all t tally (by cases found <;> simp [entryCounters])
    cases found with
    | some c =>
      have hit := looked.trans (counted_bump .unsatCacheHits (by decide))
      rw [List.append_assoc] at hit
      exact ⟨_, .hit n, hit⟩
    | none =>
      have missed := looked.trans (counted_bump .unsatCacheMisses (by decide))
      obtain ⟨trail, told, later⟩ := byOracle_counted
      have all := missed.trans later
      simp only [List.append_assoc] at all
      exact ⟨_, .miss n told, all⟩

theorem byModel_counted : ∃ trail, ModelTrail e.vars.length (byModel ask e delta s w).1 trail ∧
    Counted trail s (byModel ask e delta s w).2.1 := by
  obtain ⟨n, tally⟩ :=
    Lookup.findModel_tally s.models delta.value e e.vars.length s.config.candidates s.tally
  rw [byModel]
  cases searched : Lookup.findModel s.models delta.value e e.vars.length s.config.candidates s.tally with
  | mk found t =>
    rw [searched] at tally
    match found with
    | .error f =>
      have looked := counted_all t tally (by simp [entryCounters])
      have stopped := looked.trans (counted_bump .traversalErrors (by decide))
      rw [List.append_nil] at stopped
      exact ⟨_, .stopped n, stopped⟩
    | .ok (some m) =>
      have looked := counted_all t tally (by simp [entryCounters])
      have hit := looked.trans (counted_bump .satCacheHits (by decide))
      exact ⟨_, .hit n, hit⟩
    | .ok none =>
      have looked := counted_all t tally (by simp [entryCounters])
      have missed := looked.trans (counted_bump .satCacheMisses (by decide))
      obtain ⟨trail, searched, later⟩ := byCore_counted
      have all := missed.trans later
      simp only [List.append_assoc] at all
      exact ⟨_, .miss n searched, all⟩

theorem answer_counted : ∃ trail, AnswerTrail e.vars.length (answer ask e s w).1 trail ∧
    Counted trail s (answer ask e s w).2.1 := by
  rw [answer]
  split
  · rename_i f session measured
    obtain rfl : (s.satDelta e).2 = session := congrArg Prod.snd measured
    exact ⟨_, .stopped, rfl, rfl, rfl, rfl⟩
  · rename_i delta session measured
    obtain rfl : (s.satDelta e).2 = session := congrArg Prod.snd measured
    split
    · exact ⟨_, .stopped, rfl, rfl, rfl, rfl⟩
    · exact ⟨_, .probe, rfl, rfl, rfl, rfl⟩
    · obtain ⟨trail, searched, later⟩ := byModel_counted
      exact ⟨trail, .searched searched, later.tally, later.models, later.cores, later.noneLoaded⟩

/-- What a query counts is told by its result, up to the candidates that it tests in vain. -/
theorem resolve_counted : ∃ trail, QueryTrail e.vars.length (resolve ask e s w).1 trail ∧
    Counted trail s (resolve ask e s w).2.1 := by
  have begun : Counted [.invocations] s (s.bump .invocations) :=
    counted_bump .invocations (by decide)
  obtain ⟨trail, answered, later⟩ := answer_counted
  have counted := begun.trans later
  rw [resolve]
  simp only
  split
  · rename_i failed
    rw [failed] at answered
    exact ⟨_, .error answered, counted⟩
  · rename_i r resolved
    rw [resolved] at answered
    refine ⟨_, .ok answered, counted.trans (counted_bump _ ?_)⟩
    split <;> decide

end Session

end Reprise
