import Reprise.Proofs.Cache.WellFormed
import Reprise.Proofs.Session.Distances

/-!
A query is a transaction. Whatever the oracle does, the query asks it at most once, and it either leaves
all answers as they are or adds the one that it was given.
-/
set_option autoImplicit false

namespace Reprise

variable {τ ω : Type}

def Oracle.noting (ask : Oracle ω) : Oracle (ω × List Expr) := fun e w =>
  ((ask e w.1).1, (ask e w.1).2, w.2 ++ [e])

theorem DeltaTable.getOrCompute_snd (t : DeltaTable) (e : Expr) (references : List Int64) :
    (t.getOrCompute e references).2 = t ∨ t.get? e = none ∧
      ∃ delta, (t.getOrCompute e references).2 = ⟨t.recorded.insert e.canonical delta⟩ := by
  simp only [getOrCompute]
  split
  · exact Or.inl rfl
  · rename_i absent
    split
    · exact Or.inl rfl
    · rename_i delta computed
      exact Or.inr ⟨absent, delta, rfl⟩

namespace Session

/-- How a query ends: the result, with the questions put to the oracle and the caches left. -/
inductive Ends (e : Expr) (s s' : Session τ) : Except Fault Resolution → List Expr → Prop
  | refused {f : ExprFault} : s'.models = s.models → s'.cores = s.cores →
    Ends e s s' (.error (.expr f)) []
  | known {r : Resolution} : r.source ≠ .oracle → s'.models = s.models → s'.cores = s.cores →
    Ends e s s' (.ok r) []
  | failed {f : OracleFault} : s'.models = s.models → s'.cores = s.cores →
    Ends e s s' (.error (.oracle f)) [e]
  | sat {m : Model} {delta : SatDelta} :
    s'.models = s.models.insert ⟨delta.value, e.vars.length, m⟩ → s'.cores = s.cores →
    Ends e s s' (.ok ⟨.sat m, .oracle, delta⟩) [e]
  | unsat {c : Core} {delta : SatDelta} : s'.models = s.models →
    s'.cores = s.cores.insert ⟨delta.value, e.vars.length, c⟩ →
    Ends e s s' (.ok ⟨.unsat c, .oracle, delta⟩) [e]

theorem Ends.of_caches {e : Expr} {s s' t t' : Session τ} {result : Except Fault Resolution}
    {questions : List Expr} (h : Ends e s s' result questions) (models : s.models = t.models)
    (cores : s.cores = t.cores) (models' : s'.models = t'.models) (cores' : s'.cores = t'.cores) :
    Ends e t t' result questions := by
  cases h with
  | refused m c => exact .refused (models' ▸ models ▸ m) (cores' ▸ cores ▸ c)
  | known other m c => exact .known other (models' ▸ models ▸ m) (cores' ▸ cores ▸ c)
  | failed m c => exact .failed (models' ▸ models ▸ m) (cores' ▸ cores ▸ c)
  | sat m c => exact .sat (models' ▸ models ▸ m) (cores' ▸ cores ▸ c)
  | unsat m c => exact .unsat (models' ▸ models ▸ m) (cores' ▸ cores ▸ c)

/-- Noting the questions changes nothing else, and tells those of a query that ends. -/
def Transacts (e : Expr) (asked : List Expr) (s : Session τ)
    (run : Except Fault Resolution × Session τ × ω)
    (noted : Except Fault Resolution × Session τ × ω × List Expr) : Prop :=
  ∃ questions, noted = (run.1, run.2.1, run.2.2, asked ++ questions) ∧
    Ends e s run.2.1 run.1 questions

section Branches

variable {ask : Oracle ω} {e : Expr} {delta : SatDelta} {s : Session τ} {w : ω} {asked : List Expr}

theorem transacts_unasked {result : Except Fault Resolution} {s' : Session τ}
    (h : Ends e s s' result []) : Transacts e asked s (result, s', w) (result, s', w, asked) :=
  ⟨[], by rw [List.append_nil], h⟩

theorem byOracle_transacts :
    Transacts e asked s (byOracle ask e delta s w) (byOracle ask.noting e delta s (w, asked)) := by
  refine ⟨[e], ?_, ?_⟩
  · simp only [byOracle, Oracle.noting]
    split <;> rfl
  · rw [byOracle]
    simp only
    split
    · exact .failed rfl rfl
    · exact .sat rfl rfl
    · exact .unsat rfl rfl

theorem byCore_transacts :
    Transacts e asked s (byCore ask e delta s w) (byCore ask.noting e delta s (w, asked)) := by
  rw [byCore, byCore]
  simp only
  split
  · exact transacts_unasked (.known (by simp) rfl rfl)
  · obtain ⟨questions, noted, ends⟩ := byOracle_transacts
    exact ⟨questions, noted, ends.of_caches rfl rfl rfl rfl⟩

theorem byModel_transacts :
    Transacts e asked s (byModel ask e delta s w) (byModel ask.noting e delta s (w, asked)) := by
  rw [byModel, byModel]
  simp only
  split
  · exact transacts_unasked (.refused rfl rfl)
  · exact transacts_unasked (.known (by simp) rfl rfl)
  · obtain ⟨questions, noted, ends⟩ := byCore_transacts
    exact ⟨questions, noted, ends.of_caches rfl rfl rfl rfl⟩

theorem answer_transacts :
    Transacts e asked s (answer ask e s w) (answer ask.noting e s (w, asked)) := by
  rw [answer, answer]
  split
  · rename_i f session measured
    have models : s.models = session.models := congrArg (fun p => p.2.models) measured
    have cores : s.cores = session.cores := congrArg (fun p => p.2.cores) measured
    exact transacts_unasked (.refused models.symm cores.symm)
  · rename_i delta session measured
    have models : s.models = session.models := congrArg (fun p => p.2.models) measured
    have cores : s.cores = session.cores := congrArg (fun p => p.2.cores) measured
    split
    · exact transacts_unasked (.refused models.symm cores.symm)
    · exact transacts_unasked (.known (by simp) models.symm cores.symm)
    · obtain ⟨questions, noted, ends⟩ := byModel_transacts
      exact ⟨questions, noted, ends.of_caches models.symm cores.symm rfl rfl⟩

theorem resolve_ends :
    Transacts e asked s (resolve ask e s w) (resolve ask.noting e s (w, asked)) := by
  have answered : Transacts e asked (s.bump .invocations) (answer ask e (s.bump .invocations) w)
      (answer ask.noting e (s.bump .invocations) (w, asked)) := answer_transacts
  obtain ⟨questions, noted, ends⟩ := answered
  rw [resolve, resolve, noted]
  simp only
  split
  · rename_i failed
    exact ⟨questions, rfl, failed ▸ ends.of_caches rfl rfl rfl rfl⟩
  · rename_i resolved
    exact ⟨questions, rfl, resolved ▸ ends.of_caches rfl rfl rfl rfl⟩

end Branches

section States

variable {s : Session τ}

/-- Insertions have made the caches. -/
def Built (s : Session τ) : Prop :=
  (∃ es, s.models = .ofEntries es) ∧ ∃ es, s.cores = .ofEntries es

theorem Ends.inserts {e : Expr} {s' : Session τ} {result : Except Fault Resolution}
    {questions : List Expr} (h : Ends e s s' result questions) :
    ∃ (es : List (Entry Model)) (fs : List (Entry Core)),
      s'.models = es.foldl Cache.insert s.models ∧ s'.cores = fs.foldl Cache.insert s.cores := by
  cases h with
  | refused m c => exact ⟨[], [], m, c⟩
  | known other m c => exact ⟨[], [], m, c⟩
  | failed m c => exact ⟨[], [], m, c⟩
  | sat m c => exact ⟨[_], [], m, c⟩
  | unsat m c => exact ⟨[], [_], m, c⟩

theorem Built.ends {e : Expr} {s' : Session τ} {result : Except Fault Resolution}
    {questions : List Expr} (h : s.Built) (ends : Ends e s s' result questions) : s'.Built := by
  obtain ⟨⟨es₀, start⟩, fs₀, start'⟩ := h
  obtain ⟨es, fs, models, cores⟩ := ends.inserts
  rw [start, Cache.foldl_insert_ofEntries] at models
  rw [start', Cache.foldl_insert_ofEntries] at cores
  exact ⟨⟨es₀ ++ es, models⟩, fs₀ ++ fs, cores⟩

variable [Table τ]

theorem exists_load {α : Type} [Payload α] (name : String) (t : τ) :
    ∃ es, (Cache.load (.empty : Cache α) name t).2 = .ofEntries es :=
  ⟨Cache.loadable α name t, congrArg Prod.snd (Cache.load_eq .empty name t)⟩

theorem built_opened (config : Config) (table : Option τ) : (opened config table).Built := by
  cases table with
  | none => exact ⟨⟨[], rfl⟩, [], rfl⟩
  | some t => exact ⟨exists_load config.storeName t, exists_load config.storeName t⟩

theorem Measured.built {asked : List Expr} (h : Measured asked s) : s.Built := by
  induction h with
  | start started =>
    obtain ⟨-, rfl⟩ := start_eq_ok.mp started
    exact built_opened _ _
  | measure e _ ih => exact ih
  | @resolve asked s ω ask e w _ ih =>
    have ended : Transacts e [] s (s.resolve ask e w) (s.resolve ask.noting e (w, [])) := resolve_ends
    obtain ⟨questions, -, ends⟩ := ended
    exact ih.ends ends
  | clear _ _ => exact ⟨⟨[], rfl⟩, [], rfl⟩
  | persist _ ih =>
    rw [Session.persist]
    split <;> exact ih
  | table t _ ih => exact ih

end States

def Kept (s s' : Session τ) : Prop :=
  s'.models.entries = s.models.entries ∧ s'.cores.entries = s.cores.entries

/-- The witness is the newest entry of its cache, under the distance of the query. -/
def Added (e : Expr) (r : Resolution) (s s' : Session τ) : Prop :=
  match r.verdict with
  | .sat m => s'.cores.entries = s.cores.entries ∧
    s'.models.entries = s.models.entries ++ [⟨r.satDelta.value, e.vars.length, m⟩]
  | .unsat c => s'.models.entries = s.models.entries ∧
    s'.cores.entries = s.cores.entries ++ [⟨r.satDelta.value, e.vars.length, c⟩]

/-- What a result says of the questions put to the oracle and of the entries. -/
def Accounts (e : Expr) (s s' : Session τ) (questions : List Expr) : Except Fault Resolution → Prop
  | .ok r => if r.source = .oracle then questions = [e] ∧ Added e r s s' else questions = [] ∧ Kept s s'
  | .error (.oracle _) => questions = [e] ∧ Kept s s'
  | .error _ => questions = [] ∧ Kept s s'

theorem entries_insert_of_built {α : Type} {c : Cache α} (e : Entry α)
    (h : ∃ es, c = .ofEntries es) : (c.insert e).entries = c.entries ++ [e] := by
  obtain ⟨es, rfl⟩ := h
  rw [Cache.insert_ofEntries, Cache.entries_ofEntries, Cache.entries_ofEntries]

theorem Ends.accounts {e : Expr} {s s' : Session τ} {result : Except Fault Resolution}
    {questions : List Expr} (built : s.Built) (h : Ends e s s' result questions) :
    Accounts e s s' questions result := by
  cases h with
  | refused m c => exact ⟨rfl, by rw [m], by rw [c]⟩
  | known other m c =>
    rw [Accounts, if_neg other]
    exact ⟨rfl, by rw [m], by rw [c]⟩
  | failed m c => exact ⟨rfl, by rw [m], by rw [c]⟩
  | sat m c => exact ⟨rfl, by rw [c], by rw [m, entries_insert_of_built _ built.1]⟩
  | unsat m c => exact ⟨rfl, by rw [m], by rw [c, entries_insert_of_built _ built.2]⟩

/-- In every session and with every oracle, an error or a known answer leaves the entries as they are,
an answer of the oracle adds its witness, and the oracle is asked once or not at all. -/
theorem resolve_transacts [Table τ] {s : Session τ} {asked : List Expr} (h : Measured asked s)
    (ask : Oracle ω) (e : Expr) (w : ω) :
    ∃ (result : Except Fault Resolution) (s' : Session τ) (w' : ω) (questions : List Expr),
      resolve ask e s w = (result, s', w') ∧
      resolve ask.noting e s (w, []) = (result, s', w', questions) ∧
      Accounts e s s' questions result ∧
      (s'.deltas = s.deltas ∨ s.deltas.get? e = none ∧
        ∃ delta, s'.deltas = ⟨s.deltas.recorded.insert e.canonical delta⟩) := by
  have ended : Transacts e [] s (resolve ask e s w) (resolve ask.noting e s (w, [])) := resolve_ends
  obtain ⟨questions, noted, ends⟩ := ended
  have left : Leaves ask e w (s.satDelta e).2 (resolve ask e s w).2.1 := resolve_leaves
  refine ⟨(resolve ask e s w).1, (resolve ask e s w).2.1, (resolve ask e s w).2.2, questions, rfl, noted,
    ends.accounts h.built, ?_⟩
  rw [left.deltas]
  exact s.deltas.getOrCompute_snd e s.config.references

/-- The model of the first query is the only entry. -/
theorem first_model_added :
    let s := opened {} (none : Option MemoryTable)
    let e := countBelow (.int 5)
    let m : Model := .ofList [(count, .bitVec (-128) 8)]
    ∃ s', resolve (Solver.bounded 1000).noting e s ((), []) =
        (.ok ⟨.sat m, .oracle, .satisfied (-10000)⟩, s', (), [e]) ∧
      s'.models.entries = [⟨0, 1, m⟩] ∧ s'.cores.entries = [] := by
  intro s e m
  have started : Measured [] s := .start (start_eq_ok.mpr ⟨rfl, rfl⟩)
  have solved : (resolve (Solver.bounded 1000) e s ()).1 =
      .ok ⟨.sat m, .oracle, .satisfied (-10000)⟩ := eq_ok_of_toOption (by decide +kernel)
  obtain ⟨result, s', w', questions, run, noted, accounts, -⟩ :=
    resolve_transacts started (Solver.bounded 1000) e ()
  rw [run] at solved
  obtain rfl : result = _ := solved
  obtain ⟨rfl, cores, models⟩ := accounts
  have size : e.vars.length = 1 := by decide +kernel
  have empty : s.models.entries = [] := Cache.entries_empty
  have empty' : s.cores.entries = [] := Cache.entries_empty
  rw [size, empty] at models
  exact ⟨s', noted, models, cores.trans empty'⟩

end Session

end Reprise
