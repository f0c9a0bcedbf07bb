import Reprise.Proofs.Session.Satisfied
import Reprise.Proofs.Session.Trail

/-!
The sizes of models found again. The search is limited from above, by the size of the query, so what
it gives may be smaller than the query but not smaller than the queries resolved before; and every
smaller one is counted as an inconsistency.
-/
set_option autoImplicit false

namespace Reprise

namespace Session

/-- Whether a query is answered by a model found again that has fewer variables. -/
def isShort (e : Expr) : Except Fault Resolution → Bool
  | .ok ⟨.sat m, .modelReuse, _⟩ => m.size < e.vars.length
  | _ => false

theorem isShort_iff {e : Expr} {result : Except Fault Resolution} :
    isShort e result = true ↔ ∃ m delta, result = .ok ⟨.sat m, .modelReuse, delta⟩ ∧
      m.size < e.vars.length := by
  constructor
  · intro h
    unfold isShort at h
    split at h
    · rename_i m delta
      exact ⟨m, delta, rfl, of_decide_eq_true h⟩
    · cases h
  · rintro ⟨m, delta, rfl, fewer⟩
    exact decide_eq_true fewer

theorem QueryTrail.count_cacheInconsistencies {e : Expr} {result : Except Fault Resolution}
    {trail : List Counter} (h : QueryTrail e.vars.length result trail) :
    trail.count .cacheInconsistencies = if isShort e result then 1 else 0 := by
  cases h with
  | error way =>
    cases way with
    | stopped => rfl
    | searched way =>
      cases way with
      | stopped n => simp [List.count_replicate, isShort]
      | miss n way =>
        cases way with
        | miss k way => cases way; simp [List.count_replicate, isShort]
  | ok way =>
    cases way with
    | probe => rfl
    | searched way =>
      cases way with
      | hit n => simp [List.count_replicate, Lookup.count_takenModel, Verdict.isSat, isShort]
      | miss n way =>
        cases way with
        | hit k => simp [List.count_replicate, Verdict.isSat, isShort]
        | miss k way => cases way <;> simp [List.count_replicate, Verdict.isSat, isShort]

section Counting

variable {τ ω : Type} {s : Session τ}

theorem resolve_count_cacheInconsistencies (ask : Oracle ω) (e : Expr) (w : ω) :
    (resolve ask e s w).2.1.tally.count .cacheInconsistencies =
      s.tally.count .cacheInconsistencies +
        UInt64.ofNat (if isShort e (resolve ask e s w).1 then 1 else 0) := by
  obtain ⟨trail, way, counted⟩ : ∃ trail, QueryTrail e.vars.length (resolve ask e s w).1 trail ∧
    Counted trail s (resolve ask e s w).2.1 := resolve_counted
  rw [counted.tally, Tally.count_bumpAll, way.count_cacheInconsistencies]

theorem resolveAll_count_cacheInconsistencies (ask : Oracle ω) (es : List Expr) (w : ω) :
    (resolveAll ask es s w).2.1.tally.count .cacheInconsistencies =
      s.tally.count .cacheInconsistencies +
        UInt64.ofNat ((es.zip (resolveAll ask es s w).1).countP fun p => isShort p.1 p.2) := by
  induction es generalizing s w with
  | nil => exact (UInt64.add_zero _).symm
  | cons e rest ih =>
    have first := resolve_count_cacheInconsistencies (s := s) ask e w
    have later := ih (s := (resolve ask e s w).2.1) (resolve ask e s w).2.2
    rw [first] at later
    rw [resolveAll, List.zip_cons_cons, List.countP_cons, UInt64.ofNat_add]
    refine later.trans ?_
    rw [UInt64.add_assoc, UInt64.add_comm (UInt64.ofNat (ite ..))]

end Counting

/-- A good model that is not smaller than the queries resolved before. -/
structure AmpleModel (n : Nat) (entry : Entry Model) : Prop extends GoodModel entry where
  ample : n ≤ entry.size

theorem yields_ampleModel (n : Nat) :
    Yields (fun e => n ≤ e.vars.length) (AmpleModel n) fun _ => True where
  model key asked told :=
    ⟨(yields_goodModel fun _ => True).model key trivial told, asked⟩
  core _ _ _ := trivial

variable {τ : Type} [Table τ] [LawfulTable τ] {s : Session τ} {n : Nat}

theorem size_of_reused (reached : Reached (fun e => n ≤ e.vars.length) s) {budget : Nat} {e : Expr}
    {m : Model} {delta : SatDelta}
    (h : (s.resolve (Solver.bounded budget) e ()).1 = .ok ⟨.sat m, .modelReuse, delta⟩) :
    n ≤ m.size ∧ m.size ≤ e.vars.length := by
  obtain ⟨delta', -, grounds⟩ := resolve_grounds h
  have keeps := reached.keeps (yields_ampleModel n)
  cases grounds with
  | model stored small sat trimmed =>
    have found := keeps.models _ stored
    have ample := found.ample
    rw [found.size] at small ample
    rw [Lookup.trim_of_size_le small] at trimmed
    rw [trimmed]
    exact ⟨ample, small⟩

theorem size_of_reused_of_batch (reached : Reached (fun e => n ≤ e.vars.length) s) (budget : Nat)
    (es : List Expr) (queries : ∀ e ∈ es, n ≤ e.vars.length) :
    ∀ p ∈ es.zip (resolveAll (Solver.bounded budget) es s ()).1, ∀ m delta,
      p.2 = .ok ⟨.sat m, .modelReuse, delta⟩ → n ≤ m.size ∧ m.size ≤ p.1.vars.length := by
  induction es generalizing s with
  | nil => exact nofun
  | cons e rest ih =>
    intro p mem m delta answered
    have next := Reached.resolve budget e reached (queries e List.mem_cons_self)
    rw [resolveAll, List.zip_cons_cons] at mem
    cases mem with
    | head => exact size_of_reused reached answered
    | tail _ later =>
      have others : ∀ e ∈ rest, n ≤ e.vars.length := fun e mem => queries e (List.mem_cons_of_mem _ mem)
      exact ih next others p later m delta answered

/-- A model found again is not larger than the query and not smaller than all queries before; each
smaller one is counted as an inconsistency, and nothing else is. Among queries of one size there are
none. -/
theorem reused_models_fit (reached : Reached (fun e => n ≤ e.vars.length) s) (budget : Nat)
    (es : List Expr) (queries : ∀ e ∈ es, n ≤ e.vars.length) :
    let answered := es.zip (resolveAll (Solver.bounded budget) es s ()).1
    let counted := (resolveAll (Solver.bounded budget) es s ()).2.1.tally.count .cacheInconsistencies
    (∀ p ∈ answered, ∀ m delta, p.2 = .ok ⟨.sat m, .modelReuse, delta⟩ →
      n ≤ m.size ∧ m.size ≤ p.1.vars.length) ∧
    counted = s.tally.count .cacheInconsistencies +
      UInt64.ofNat (answered.countP fun p => isShort p.1 p.2) ∧
    ((∀ e ∈ es, e.vars.length = n) → counted = s.tally.count .cacheInconsistencies) := by
  intro answered counted
  have sizes := size_of_reused_of_batch reached budget es queries
  have short := resolveAll_count_cacheInconsistencies (s := s) (Solver.bounded budget) es ()
  refine ⟨sizes, short, fun alike => ?_⟩
  have none_short : (answered.countP fun p => isShort p.1 p.2) = 0 := by
    rw [List.countP_eq_zero]
    intro p mem found
    obtain ⟨m, delta, reused, fewer⟩ := isShort_iff.mp found
    have enough := (sizes p mem m delta reused).1
    rw [alike p.1 (List.of_mem_zip mem).1] at fewer
    omega
  exact short.trans (by rw [none_short]; exact UInt64.add_zero _)

section Samples

def wideAndLow : Expr :=
  .binary .and (.binary .gt (.var width) (.int 3)) (.binary .lt (.var height) (.int 4))

/-- After a query of one variable, another one is answered by its model. -/
theorem reused_model_of_alike_query :
    let s := afterOne widthFive
    let run := resolveAll (Solver.bounded 100) [.binary .gt (.var width) (.int 3)] s ()
    run.1.map Except.toOption = [some ⟨.sat five, .modelReuse, .satisfied 100⟩] ∧ five.size = 1 ∧
      run.2.1.tally.count .cacheInconsistencies = 0 := by
  intro s run
  have reached : Reached (fun e => 1 ≤ e.vars.length) s := reached_afterOne (by decide +kernel)
  have fit := reused_models_fit reached 100 [.binary .gt (.var width) (.int 3)] (by decide +kernel)
  have unchanged := fit.2.2 (by decide +kernel)
  have zero : s.tally.count .cacheInconsistencies = 0 := by decide +kernel
  exact ⟨by decide +kernel, by decide +kernel, unchanged.trans zero⟩

/-- A model of one variable answers a query of two, and is counted as an inconsistency. -/
theorem reused_model_short :
    ¬ ∀ (config : Config) (s : Session MemoryTable) (budget : Nat) (es : List Expr),
      start config (some MemoryTable.empty) = .ok s →
      (∀ p ∈ es.zip (resolveAll (Solver.bounded budget) es s ()).1, ∀ m delta,
        p.2 = .ok ⟨.sat m, .modelReuse, delta⟩ → m.size = p.1.vars.length) ∧
      (resolveAll (Solver.bounded budget) es s ()).2.1.tally.count .cacheInconsistencies = 0 := by
  intro claim
  have counted := (claim {} (opened {} (some .empty)) 100 [widthFive, wideAndLow]
    (start_eq_ok.mpr ⟨rfl, rfl⟩)).2
  revert counted
  decide +kernel

end Samples

end Session

end Reprise
