import Reprise.Proofs.Lookup.Candidates
import Reprise.Session.Resolve

/-!
The beginning of a session, and one query taken apart: what a resolution rests on, and what it leaves
in the session.
-/
set_option autoImplicit false

namespace Reprise

namespace Session

variable {τ ω : Type}

def opened [Table τ] (config : Config) (table : Option τ) : Session τ :=
  warmLoad ⟨config, .empty, .empty, .empty, table, .empty⟩

theorem start_eq_ok [Table τ] {config : Config} {table : Option τ} {s : Session τ} :
    start config table = .ok s ↔ config.validate = .ok () ∧ opened config table = s := by
  rw [start]
  cases config.validate with
  | error f => simp
  | ok valid => simp [opened]

def said (ask : Oracle ω) (e : Expr) (w : ω) : Except OracleFault Verdict :=
  (ask e w).1.bind Outcome.verdict

/-- What a resolution rests on, one case for each source. -/
inductive Grounds (ask : Oracle ω) (e : Expr) (w : ω) (delta : SatDelta) (models : Cache Model)
    (cores : Cache Core) : Resolution → Prop
  | probe {reference : Int64} {m : Model} :
    probeModel e reference = .ok (some m) →
    Grounds ask e w delta models cores ⟨.sat m, .referenceProbe, delta⟩
  | model {entry : Entry Model} {t : Tally} {m : Model} :
    entry ∈ models.entries → entry.size ≤ e.vars.length → e.satisfies entry.payload = .ok true →
    m = (Lookup.trim entry.payload e.vars.length t).1 →
    Grounds ask e w delta models cores ⟨.sat m, .modelReuse, delta⟩
  | core {entry : Entry Core} {c : Core} :
    entry ∈ cores.entries → entry.payload = c → c.isContainedIn e = true →
    Grounds ask e w delta models cores ⟨.unsat c, .coreReuse, delta⟩
  | oracle {verdict : Verdict} :
    said ask e w = .ok verdict → Grounds ask e w delta models cores ⟨verdict, .oracle, delta⟩

theorem Grounds.satDelta_eq {ask : Oracle ω} {e : Expr} {w : ω} {delta : SatDelta}
    {models : Cache Model} {cores : Cache Core} {r : Resolution}
    (h : Grounds ask e w delta models cores r) : r.satDelta = delta := by
  cases h <;> rfl

/-- What a query leaves: only an answer of the oracle is added. -/
structure Leaves (ask : Oracle ω) (e : Expr) (w : ω) (s s' : Session τ) : Prop where
  config : s'.config = s.config
  table : s'.table = s.table
  deltas : s'.deltas = s.deltas
  models : s'.models = s.models ∨ ∃ m key, said ask e w = .ok (.sat m) ∧
    s'.models = s.models.insert ⟨key, e.vars.length, m⟩
  cores : s'.cores = s.cores ∨ ∃ c key, said ask e w = .ok (.unsat c) ∧
    s'.cores = s.cores.insert ⟨key, e.vars.length, c⟩

variable {ask : Oracle ω} {e : Expr} {delta : SatDelta} {s s' : Session τ} {w : ω}

theorem leaves_all (t : Tally) : Leaves ask e w s { s with tally := t } :=
  ⟨rfl, rfl, rfl, Or.inl rfl, Or.inl rfl⟩

theorem Leaves.of_tally {t : Tally} (h : Leaves ask e w { s with tally := t } s') :
    Leaves ask e w s s' :=
  ⟨h.config, h.table, h.deltas, h.models, h.cores⟩

theorem byOracle_leaves : Leaves ask e w s (byOracle ask e delta s w).2.1 := by
  rw [byOracle]
  simp only
  split
  · exact leaves_all _
  · rename_i m told
    exact ⟨rfl, rfl, rfl, Or.inr ⟨m, delta.value, told, rfl⟩, Or.inl rfl⟩
  · rename_i c told
    exact ⟨rfl, rfl, rfl, Or.inl rfl, Or.inr ⟨c, delta.value, told, rfl⟩⟩

theorem byOracle_grounds {models : Cache Model} {cores : Cache Core} {r : Resolution}
    (h : (byOracle ask e delta s w).1 = .ok r) : Grounds ask e w delta models cores r := by
  rw [byOracle] at h
  simp only at h
  split at h
  · cases h
  · rename_i m told
    cases h
    exact .oracle told
  · rename_i c told
    cases h
    exact .oracle told

theorem byCore_leaves : Leaves ask e w s (byCore ask e delta s w).2.1 := by
  rw [byCore]
  simp only
  split
  · exact leaves_all _
  · exact byOracle_leaves.of_tally

theorem byCore_grounds {models : Cache Model} {r : Resolution}
    (h : (byCore ask e delta s w).1 = .ok r) : Grounds ask e w delta models s.cores r := by
  rw [byCore] at h
  simp only at h
  split at h
  · rename_i c found
    cases h
    obtain ⟨entry, mem, same, contained⟩ := Lookup.findCore_some found
    exact .core mem same contained
  · exact byOracle_grounds h

theorem byModel_leaves : Leaves ask e w s (byModel ask e delta s w).2.1 := by
  rw [byModel]
  simp only
  split
  · exact leaves_all _
  · exact leaves_all _
  · exact byCore_leaves.of_tally

theorem byModel_grounds {r : Resolution} (h : (byModel ask e delta s w).1 = .ok r) :
    Grounds ask e w delta s.models s.cores r := by
  rw [byModel] at h
  simp only at h
  split at h
  · cases h
  · rename_i m found
    cases h
    obtain ⟨entry, mem, small, passed, t, trimmed⟩ := Lookup.findModel_some found
    exact .model mem small passed trimmed
  · have later : Grounds ask e w delta s.models _ r := byCore_grounds h
    exact later

theorem answer_leaves : Leaves ask e w (s.satDelta e).2 (answer ask e s w).2.1 := by
  rw [answer]
  split
  · rename_i f _ measured
    rw [measured]
    exact leaves_all _
  · rename_i delta _ measured
    rw [measured]
    split
    · exact leaves_all _
    · exact leaves_all _
    · exact byModel_leaves

theorem answer_grounds {r : Resolution} (h : (answer ask e s w).1 = .ok r) :
    ∃ delta, (s.satDelta e).1 = .ok delta ∧ Grounds ask e w delta s.models s.cores r := by
  rw [answer] at h
  split at h
  · cases h
  · rename_i delta session measured
    have models : s.models = session.models := congrArg (fun p => p.2.models) measured
    have cores : s.cores = session.cores := congrArg (fun p => p.2.cores) measured
    refine ⟨delta, congrArg Prod.fst measured, ?_⟩
    split at h
    · cases h
    · rename_i m probed
      cases h
      rw [byProbe] at probed
      split at probed
      · exact .probe probed
      · cases probed
    · have grounds := byModel_grounds h
      rwa [← models, ← cores] at grounds

theorem resolve_leaves : Leaves ask e w (s.satDelta e).2 (resolve ask e s w).2.1 := by
  rw [resolve]
  have counted : Leaves ask e w ((s.bump .invocations).satDelta e).2
      (answer ask e (s.bump .invocations) w).2.1 := answer_leaves
  have answered : Leaves ask e w (s.satDelta e).2 (answer ask e (s.bump .invocations) w).2.1 :=
    ⟨counted.config, counted.table, counted.deltas, counted.models, counted.cores⟩
  simp only
  split
  · exact answered
  · exact ⟨answered.config, answered.table, answered.deltas, answered.models, answered.cores⟩

theorem resolve_grounds {r : Resolution} (h : (resolve ask e s w).1 = .ok r) :
    ∃ delta, (s.satDelta e).1 = .ok delta ∧ Grounds ask e w delta s.models s.cores r := by
  rw [resolve] at h
  simp only at h
  split at h
  · cases h
  · rename_i answered
    cases h
    obtain ⟨delta, measured, grounds⟩ := answer_grounds answered
    exact ⟨delta, measured, grounds⟩

end Session

end Reprise
