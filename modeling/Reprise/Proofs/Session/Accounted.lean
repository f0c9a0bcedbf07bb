import Reprise.Proofs.Cache.WellFormed
import Reprise.Proofs.Session.Refuted
import Reprise.Proofs.Session.Satisfied
import Reprise.Proofs.Session.Trail

/-!
The counts of a session in the course of any run, with any oracles and failures: they balance, and
without clearing they account for every entry.
-/
set_option autoImplicit false

namespace Reprise

namespace Session

variable {τ : Type} {s s' : Session τ} {cleared : Bool}

/-- The counts modulo 2^64. -/
structure Accounted (cleared : Bool) (s : Session τ) : Prop where
  balanced : Balanced s.tally.count
  entries : cleared = false →
    UInt64.ofNat (s.models.entries.length + s.cores.entries.length) =
      s.tally.count .entriesWarmLoaded + s.tally.count .satEntriesAdded
        + s.tally.count .unsatEntriesAdded

theorem Accounted.counted {size : Nat} {result : Except Fault Resolution} {trail : List Counter}
    (h : Accounted cleared s) (way : QueryTrail size result trail) (counted : Counted trail s s') :
    Accounted cleared s' where
  balanced := by
    rw [counted.tally]
    exact h.balanced.bumpAll way.balanced
  entries uncleared := by
    have before := h.entries uncleared
    rw [UInt64.ofNat_add] at before
    rw [counted.tally, counted.models, counted.cores, Tally.count_bumpAll, Tally.count_bumpAll,
      Tally.count_bumpAll, counted.noneLoaded]
    simp only [UInt64.ofNat_add]
    grind

theorem Accounted.resolve {ω : Type} (h : Accounted cleared s) (ask : Oracle ω) (e : Expr) (w : ω) :
    Accounted cleared (s.resolve ask e w).2.1 := by
  obtain ⟨trail, way, counted⟩ : ∃ trail, QueryTrail e.vars.length (Session.resolve ask e s w).1 trail ∧
    Counted trail s (Session.resolve ask e s w).2.1 := resolve_counted
  exact h.counted way counted

theorem Accounted.resolveAll {ω : Type} (h : Accounted cleared s) (ask : Oracle ω) (es : List Expr)
    (w : ω) : Accounted cleared (Session.resolveAll ask es s w).2.1 := by
  induction es generalizing s w with
  | nil => exact h
  | cons e rest ih => exact ih (h.resolve ask e w) _

variable [Table τ]

/-- The sessions that runs lead to; the flag tells whether there was any clearing. -/
inductive Runs : Bool → Session τ → Prop
  | start {config : Config} {table : Option τ} {s : Session τ} :
    Session.start config table = .ok s → Runs false s
  | resolve {cleared : Bool} {s : Session τ} {ω : Type} (ask : Oracle ω) (e : Expr) (w : ω) :
    Runs cleared s → Runs cleared (s.resolve ask e w).2.1
  | resolveAll {cleared : Bool} {s : Session τ} {ω : Type} (ask : Oracle ω) (es : List Expr) (w : ω) :
    Runs cleared s → Runs cleared (resolveAll ask es s w).2.1
  | measure {cleared : Bool} {s : Session τ} (e : Expr) :
    Runs cleared s → Runs cleared (s.satDelta e).2
  | persist {cleared : Bool} {s : Session τ} : Runs cleared s → Runs cleared s.persist.2
  | table {cleared : Bool} {s : Session τ} (t : Option τ) :
    Runs cleared s → Runs cleared { s with table := t }
  | clear {cleared : Bool} {s : Session τ} : Runs cleared s → Runs true s.clear

theorem accounted_opened (config : Config) (table : Option τ) :
    Accounted false (opened config table) := by
  have loaded : ∀ n, Balanced (Tally.empty.add .entriesWarmLoaded n).count := by
    intro n
    constructor <;> simp [Tally.count_add]
  cases table with
  | none =>
    refine ⟨loaded 0, fun _ => ?_⟩
    simp [opened, warmLoad]
  | some t =>
    refine ⟨loaded _, fun _ => ?_⟩
    have models := Cache.length_entries_load (α := Model) config.storeName t
    have cores := Cache.length_entries_load (α := Core) config.storeName t
    simp [opened, warmLoad, models, cores, Tally.count_add]

/-- Whatever happens in a run, every query and every lookup has ended in exactly one way, and the
entries are those loaded and those added. -/
theorem accounted_of_runs (h : Runs cleared s) : Accounted cleared s := by
  induction h with
  | start started =>
    obtain ⟨-, rfl⟩ := start_eq_ok.mp started
    exact accounted_opened _ _
  | resolve ask e w _ ih => exact ih.resolve ask e w
  | resolveAll ask es w _ ih => exact ih.resolveAll ask es w
  | measure e _ ih => exact ⟨ih.balanced, ih.entries⟩
  | persist _ ih =>
    rw [Session.persist]
    split <;> exact ⟨ih.balanced, ih.entries⟩
  | table t _ ih => exact ⟨ih.balanced, ih.entries⟩
  | clear _ ih => exact ⟨ih.balanced, fun uncleared => absurd uncleared (by decide)⟩

def down : Oracle Unit := fun _ w => (.error (.failed "down"), w)

/-- One entry is loaded; then four queries are resolved by a model, by the oracle, by a core and not at
all, and a fifth fails with the oracle. -/
theorem batch_accounted :
    let later := opened {} (afterOne widthFive).persist.2.table
    let batch : List Expr := [.binary .gt (.var width) (.int 3), depthNegative,
      .binary .and depthNegative (.binary .lt (.var depth) (.int 20)), .var width]
    let ended := (resolveAll (Solver.bounded 100) batch later ()).2.1
    let s := (ended.resolve down (.binary .gt (.var width) (.int 30)) ()).2.1
    Counter.all.map s.tally.count = [5, 1, 2, 0, 1, 3, 1, 2, 2, 3, 1, 2, 1, 0, 1, 1, 0, 1, 1] ∧
      Accounted false s := by
  intro later batch ended s
  have started : start {} (afterOne widthFive).persist.2.table = .ok later :=
    start_eq_ok.mpr ⟨rfl, rfl⟩
  have run : Runs false s := .resolve down _ () (.resolveAll (Solver.bounded 100) batch () (.start started))
  exact ⟨by decide +kernel, accounted_of_runs run⟩

end Session

end Reprise
