import Reprise.Proofs.Cache.Nearest
import Reprise.Proofs.Session.OwnCore
import Reprise.Proofs.Session.Satisfied
import Reprise.Proofs.Session.Transaction

/-!
A query resolved twice. After the oracle has answered the first time there is one entry, at the very
distance of the query. A model is found again; a core is found again if its clauses stand in
parentheses in the query, and otherwise the oracle gives it once more.
-/
set_option autoImplicit false

namespace Reprise

theorem DeltaTable.getOrCompute_again {t : DeltaTable} {e : Expr} {references : List Int64}
    {delta : SatDelta} (h : (t.getOrCompute e references).1.map Prod.fst = .ok delta) :
    ((t.getOrCompute e references).2.getOrCompute e references).1.map Prod.fst = .ok delta := by
  have recorded : (t.getOrCompute e references).2.get? e = some delta := by
    rw [get?_getOrCompute, if_pos rfl]
    simp only [getOrCompute] at h
    rw [get?]
    split at h
    · rename_i known
      cases h
      rw [known]
      rfl
    · rename_i absent
      rw [absent]
      split at h
      · cases h
      · rename_i computed
        cases h
        rw [computed]
        rfl
  have recorded : (t.getOrCompute e references).2.recorded.get? e.canonical = some delta := recorded
  rw [getOrCompute, recorded]
  rfl

namespace Cache

variable {α : Type} {key : Binary64} {k : Nat} {limit : Option Nat}

theorem nearest_empty : (empty : Cache α).nearest key k limit = [] := by
  simp [nearest, nearestSlots, empty, outward]

theorem nearest_single {e : Entry α} (wanted : k ≠ 0) (fit : fits limit e.size = true) :
    (empty.insert e).nearest key k limit = [e] := by
  have alone : ((empty.insert e).passed key).Perm (numbered 0 [e]) := perm_passed_ofEntries [e] key
  have slots : (empty.insert e).passed key = [⟨0, e⟩] := List.perm_singleton.mp alone
  have found : (empty.insert e).nearest key k limit =
      ((((empty.insert e).passed key).filter fun slot => fits limit slot.entry.size).take k).map
        Slot.entry := rfl
  have fitting : [(⟨0, e⟩ : Slot α)].filter (fun slot => fits limit slot.entry.size) = [⟨0, e⟩] :=
    List.filter_eq_self.mpr (by simpa using fit)
  have enough : [(⟨0, e⟩ : Slot α)].length ≤ k := Nat.pos_of_ne_zero wanted
  rw [found, slots, fitting, List.take_of_length_le enough]
  rfl

end Cache

namespace Session

section Ways

variable {τ ω : Type} {ask : Oracle ω} {e : Expr} {delta : SatDelta} {s : Session τ} {w : ω}

def FindsModel (e : Expr) (delta : SatDelta) (s : Session τ) (found : Option Model) : Prop :=
  ∀ t, (Lookup.findModel s.models delta.value e e.vars.length s.config.candidates t).1 = .ok found

def FindsCore (e : Expr) (delta : SatDelta) (s : Session τ) (found : Option Core) : Prop :=
  ∀ t, (Lookup.findCore s.cores delta.value e s.config.candidates t).1 = found

/-- No probe answers the query. -/
structure Searches (e : Expr) (delta : SatDelta) (s : Session τ) : Prop where
  measured : (s.satDelta e).1 = .ok delta
  unprobed : byProbe e delta = .ok none

variable {r : Resolution}

theorem byOracle_told {verdict : Verdict} (told : said ask e w = .ok verdict) :
    (byOracle ask e delta s w).1 = .ok ⟨verdict, .oracle, delta⟩ := by
  have told : (ask e w).1.bind Outcome.verdict = .ok verdict := told
  rw [byOracle]
  simp only [told]
  cases verdict <;> rfl

theorem byCore_hit {c : Core} (found : FindsCore e delta s (some c)) :
    (byCore ask e delta s w).1 = .ok ⟨.unsat c, .coreReuse, delta⟩ := by
  rw [byCore]
  simp only [found s.tally]

theorem byCore_miss (found : FindsCore e delta s none)
    (later : ∀ t, (byOracle ask e delta { s with tally := t } w).1 = .ok r) :
    (byCore ask e delta s w).1 = .ok r := by
  rw [byCore]
  simp only [found s.tally]
  exact later _

theorem byModel_hit {m : Model} (found : FindsModel e delta s (some m)) :
    (byModel ask e delta s w).1 = .ok ⟨.sat m, .modelReuse, delta⟩ := by
  rw [byModel]
  simp only [found s.tally]

theorem byModel_miss (found : FindsModel e delta s none)
    (later : ∀ t, (byCore ask e delta { s with tally := t } w).1 = .ok r) :
    (byModel ask e delta s w).1 = .ok r := by
  rw [byModel]
  simp only [found s.tally]
  exact later _

theorem resolve_fst : (resolve ask e s w).1 = (answer ask e (s.bump .invocations) w).1 := by
  rw [resolve]
  simp only
  split <;> rename_i answered <;> exact answered.symm

/-- The way on from the probes. What is counted and which distances are recorded makes no difference. -/
theorem resolve_searched (h : Searches e delta s)
    (later : ∀ t d, (byModel ask e delta { s with tally := t, deltas := d } w).1 = .ok r) :
    (resolve ask e s w).1 = .ok r := by
  have measured : ((s.bump .invocations).satDelta e).1 = .ok delta := h.measured
  rw [resolve_fst, answer]
  cases searched : (s.bump .invocations).satDelta e with
  | mk result session =>
    rw [searched] at measured
    obtain rfl : result = .ok delta := measured
    obtain rfl : ((s.bump .invocations).satDelta e).2 = session := congrArg Prod.snd searched
    simp only [h.unprobed]
    exact later _ _

theorem resolve_by_model {m : Model} (h : Searches e delta s) (found : FindsModel e delta s (some m)) :
    (resolve ask e s w).1 = .ok ⟨.sat m, .modelReuse, delta⟩ :=
  resolve_searched h fun _ _ => byModel_hit found

theorem resolve_by_core {c : Core} (h : Searches e delta s) (no_model : FindsModel e delta s none)
    (found : FindsCore e delta s (some c)) :
    (resolve ask e s w).1 = .ok ⟨.unsat c, .coreReuse, delta⟩ :=
  resolve_searched h fun _ _ => byModel_miss no_model fun _ => byCore_hit found

theorem resolve_by_oracle {verdict : Verdict} (h : Searches e delta s)
    (no_model : FindsModel e delta s none) (no_core : FindsCore e delta s none)
    (told : said ask e w = .ok verdict) :
    (resolve ask e s w).1 = .ok ⟨verdict, .oracle, delta⟩ :=
  resolve_searched h fun _ _ => byModel_miss no_model fun _ => byCore_miss no_core fun _ =>
    byOracle_told told

theorem searches_of_oracle (h : (resolve ask e s w).1 = .ok r) (asked : r.source = .oracle) :
    Searches e r.satDelta s ∧ said ask e w = .ok r.verdict := by
  rw [resolve_fst, answer] at h
  split at h
  · cases h
  · rename_i delta session measured
    split at h
    · cases h
    · cases h
      cases asked
    · rename_i unprobed
      have grounds := byModel_grounds h
      have same := grounds.satDelta_eq
      rw [same]
      refine ⟨⟨congrArg Prod.fst measured, unprobed⟩, ?_⟩
      cases grounds with
      | probe => cases asked
      | model => cases asked
      | core => cases asked
      | oracle told => exact told

theorem findsModel_empty (h : s.models = .empty) : FindsModel e delta s none := by
  intro t
  rw [h, Lookup.findModel, Cache.nearest_empty]
  rfl

theorem findsModel_single {m : Model} (h : s.models = .insert .empty ⟨delta.value, e.vars.length, m⟩)
    (wanted : s.config.candidates ≠ 0) (size : m.size = e.vars.length)
    (sat : e.satisfies m = .ok true) : FindsModel e delta s (some m) := by
  intro t
  have fit : Cache.fits (some e.vars.length) e.vars.length = true := decide_eq_true (Nat.le_refl _)
  have whole := Lookup.trim_of_size_le (Nat.le_of_eq size) (t.bump .modelsReused)
  rw [h, Lookup.findModel, Cache.nearest_single wanted fit, List.map_singleton, Lookup.firstModel]
  simp only [sat, whole]

theorem findsCore_single {c : Core} (h : s.cores = .insert .empty ⟨delta.value, e.vars.length, c⟩)
    (wanted : s.config.candidates ≠ 0) :
    FindsCore e delta s (if c.isContainedIn e then some c else none) := by
  intro t
  rw [h, Lookup.findCore, Cache.nearest_single wanted rfl, List.map_singleton]
  cases empty : c.isEmpty with
  | true =>
    have nowhere : c.isContainedIn e = false := by simp [Core.isContainedIn, empty]
    simp [empty, nowhere, Lookup.firstCore]
  | false =>
    have tested : [c].filter (fun c => !c.isEmpty) = [c] := by simp [empty]
    rw [tested, Lookup.firstCore]
    cases c.isContainedIn e <;> rfl

end Ways

section Twice

variable {τ : Type} {s : Session τ} {budget : Nat} {e : Expr} {r : Resolution}

/-- Resolving the query in the session gives the same verdict from a known source: without a question
and with all entries kept if it is a cache, with one question and a new entry if it is the oracle. -/
def Repeats (budget : Nat) (e : Expr) (r : Resolution) (source : Source) (s : Session τ) : Prop :=
  ∃ s' questions, resolve (Solver.bounded budget).noting e s ((), []) =
      (.ok { r with source := source }, s', (), questions) ∧
    Accounts e s s' questions (.ok { r with source := source })

theorem repeats_of_resolve {source : Source} (built : s.Built)
    (h : (resolve (Solver.bounded budget) e s ()).1 = .ok { r with source := source }) :
    Repeats budget e r source s := by
  have ended : Transacts e [] s (resolve (Solver.bounded budget) e s ())
    (resolve (Solver.bounded budget).noting e s ((), [])) := resolve_ends
  obtain ⟨questions, noted, ends⟩ := ended
  rw [h] at noted ends
  exact ⟨_, questions, noted, ends.accounts built⟩

theorem candidates_ne_zero {config : Config} (h : config.validate = .ok ()) : config.candidates ≠ 0 := by
  intro zero
  rw [Config.validate, if_pos zero] at h
  cases h

/-- What the second query meets: the distance of the first, and no more entries than its own. -/
structure Follows (e : Expr) (r : Resolution) (s : Session τ) : Prop where
  searches : Searches e r.satDelta s
  wanted : s.config.candidates ≠ 0
  entry : match r.verdict with
    | .sat m => s.cores = .empty ∧ s.models = .insert .empty ⟨r.satDelta.value, e.vars.length, m⟩
    | .unsat c => s.models = .empty ∧ s.cores = .insert .empty ⟨r.satDelta.value, e.vars.length, c⟩

theorem follows_of_oracle (valid : s.config.validate = .ok ()) (models : s.models = .empty)
    (cores : s.cores = .empty) (first : (resolve (Solver.bounded budget) e s ()).1 = .ok r)
    (asked : r.source = .oracle) : Follows e r (resolve (Solver.bounded budget) e s ()).2.1 := by
  have left : Leaves (Solver.bounded budget) e () (s.satDelta e).2 _ := resolve_leaves
  have ended : Transacts e [] s (resolve (Solver.bounded budget) e s ())
    (resolve (Solver.bounded budget).noting e s ((), [])) := resolve_ends
  obtain ⟨searches, -⟩ := searches_of_oracle first asked
  obtain ⟨questions, -, ends⟩ := ended
  have config : (resolve (Solver.bounded budget) e s ()).2.1.config = s.config := left.config
  refine ⟨⟨?_, searches.unprobed⟩, config ▸ candidates_ne_zero valid, ?_⟩
  · have again := DeltaTable.getOrCompute_again searches.measured
    rw [satDelta, left.deltas, config]
    exact again
  · rw [first] at ends
    cases ends with
    | known other => exact absurd asked other
    | sat added kept => exact ⟨kept.trans cores, models ▸ added⟩
    | unsat kept added => exact ⟨kept.trans models, cores ▸ added⟩

theorem Follows.built (h : Follows e r s) : s.Built := by
  obtain ⟨verdict, source, delta⟩ := r
  cases verdict with
  | sat m => exact ⟨⟨[⟨delta.value, e.vars.length, m⟩], h.entry.2⟩, [], h.entry.1⟩
  | unsat c => exact ⟨⟨[], h.entry.1⟩, [⟨delta.value, e.vars.length, c⟩], h.entry.2⟩

theorem Follows.repeats_sat {m : Model} (h : Follows e r s)
    (told : said (Solver.bounded budget) e () = .ok (.sat m)) (verdict : r.verdict = .sat m) :
    Repeats budget e r .modelReuse s := by
  have entry := h.entry
  rw [verdict] at entry
  obtain ⟨keys, -, sat⟩ := Solver.findModel_some (said_sat told)
  have found := findsModel_single entry.2 h.wanted (size_of_keys keys) sat
  refine repeats_of_resolve h.built ?_
  rw [verdict]
  exact resolve_by_model h.searches found

theorem Follows.repeats_unsat {c : Core} (h : Follows e r s)
    (told : said (Solver.bounded budget) e () = .ok (.unsat c)) (verdict : r.verdict = .unsat c) :
    Repeats budget e r (if c.isContainedIn e then .coreReuse else .oracle) s := by
  have entry := h.entry
  rw [verdict] at entry
  have no_model : FindsModel e r.satDelta s none := findsModel_empty entry.1
  have core := findsCore_single entry.2 h.wanted
  refine repeats_of_resolve h.built ?_
  rw [verdict]
  cases contained : c.isContainedIn e with
  | true =>
    rw [contained] at core
    exact resolve_by_core h.searches no_model core
  | false =>
    rw [contained] at core
    exact resolve_by_oracle h.searches no_model core told

/-- Where the oracle has answered a query with empty caches, the same query is given the same verdict
again. A model is found again. A core is found again if its clauses stand in parentheses in the query,
as they do in a conjunction unless one is a bare variable of an empty domain; otherwise the oracle is
asked once more, and a second entry is added. -/
theorem repeated_query (valid : s.config.validate = .ok ()) (models : s.models = .empty)
    (cores : s.cores = .empty) (first : (resolve (Solver.bounded budget) e s ()).1 = .ok r)
    (asked : r.source = .oracle) :
    let later := (resolve (Solver.bounded budget) e s ()).2.1
    (∀ m, r.verdict = .sat m → Repeats budget e r .modelReuse later) ∧
    ∀ c, r.verdict = .unsat c →
      Repeats budget e r (if c.isContainedIn e then .coreReuse else .oracle) later ∧
      (e.isConjunction = false → c.isContainedIn e = false) ∧
      (e.isConjunction = true → (∀ v ∈ e.vars, v.domainSize ≠ 0) → c.isContainedIn e = true) ∧
      (e.LegibleNames → (c.isContainedIn e = true ↔
        e.isConjunction = true ∧ ∀ k ∈ c.clauses, k.isOperation = true)) := by
  intro later
  have follows : Follows e r later := follows_of_oracle valid models cores first asked
  obtain ⟨-, told⟩ := searches_of_oracle first asked
  refine ⟨fun m verdict => ?_, fun c verdict => ?_⟩
  · rw [verdict] at told
    exact follows.repeats_sat told verdict
  · rw [verdict] at told
    have own := ownCore_of_said told
    exact ⟨follows.repeats_unsat told verdict, own.not_contained,
      fun conjunction domains => own.contained conjunction (own.operations_of_domains domains),
      own.contained_iff⟩

section Samples

/-- A conjunction finds its own core. -/
theorem repeated_conjunction :
    let s := opened {} (none : Option MemoryTable)
    let query : Expr := .binary .and depthNegative (.binary .lt (.var depth) (.int 20))
    let r : Resolution := ⟨.unsat (.ofList [depthNegative]), .oracle, .satisfied (-10000)⟩
    (resolve (Solver.bounded 100) query s ()).1 = .ok r ∧
      Repeats 100 query r .coreReuse (resolve (Solver.bounded 100) query s ()).2.1 := by
  intro s query r
  have first : (resolve (Solver.bounded 100) query s ()).1 = .ok r :=
    eq_ok_of_toOption (by decide +kernel)
  have valid : s.config.validate = .ok () := (rfl : Config.validate {} = .ok ())
  have again := (repeated_query valid rfl rfl first rfl).2 _ rfl
  have contained : (Core.ofList [depthNegative]).isContainedIn query = true :=
    again.2.2.1 rfl (by decide +kernel)
  rw [contained] at again
  exact ⟨first, again.1⟩

/-- A query that is no conjunction is put to the oracle again. -/
theorem repeated_query_asks :
    ¬ ∀ (config : Config) (s : Session MemoryTable) (budget : Nat) (e : Expr) (r : Resolution),
      start config none = .ok s → (resolve (Solver.bounded budget) e s ()).1 = .ok r →
      r.source = .oracle → ∃ r' s',
        resolve (Solver.bounded budget).noting e (resolve (Solver.bounded budget) e s ()).2.1 ((), []) =
          (.ok r', s', (), []) ∧
        r'.verdict.isSat = r.verdict.isSat ∧ Kept (resolve (Solver.bounded budget) e s ()).2.1 s' := by
  intro claim
  have first : (resolve (Solver.bounded 100) depthNegative (opened {} (none : Option MemoryTable)) ()).1 =
      .ok ⟨.unsat (.ofList [depthNegative]), .oracle, .satisfied (-10000)⟩ :=
    eq_ok_of_toOption (by decide +kernel)
  obtain ⟨r', s', again, -⟩ := claim {} _ 100 depthNegative _ (start_eq_ok.mpr ⟨rfl, rfl⟩) first rfl
  have unasked : (resolve (Solver.bounded 100).noting depthNegative (resolve (Solver.bounded 100)
      depthNegative (opened {} (none : Option MemoryTable)) ()).2.1 ((), [])).2.2.2 = [] :=
    congrArg (fun result => result.2.2.2) again
  revert unasked
  decide +kernel

end Samples

end Twice

end Session

end Reprise
