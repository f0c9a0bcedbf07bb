import Reprise.Proofs.Cache.Persistence
import Reprise.Proofs.Session.Answer
import Reprise.Solver.Minimise
import Reprise.Table.Memory

/-!
Runs of sessions, alone or several over one table, and what holds of all their answers: if it holds
of what the oracle says, it holds of every entry that a session has or that its table holds.
-/
set_option autoImplicit false

namespace Reprise

open LawfulTable (held)

namespace Session

variable {τ : Type} [Table τ] [LawfulTable τ]

/-- The sessions that runs lead to, where the queries resolved are among those `asked`. -/
inductive Reached (asked : Expr → Prop) : Session τ → Prop
  /-- Without a table or over one that holds nothing. -/
  | start {config : Config} {table : Option τ} {s : Session τ} :
    (∀ t, table = some t → ∀ key, held t key = none) → Session.start config table = .ok s →
    Reached asked s
  | resolve {s : Session τ} (budget : Nat) (e : Expr) : Reached asked s → asked e →
    Reached asked (s.resolve (Solver.bounded budget) e ()).2.1
  | measure {s : Session τ} (e : Expr) : Reached asked s → Reached asked (s.satDelta e).2
  | clear {s : Session τ} : Reached asked s → Reached asked s.clear
  | persist {s : Session τ} : Reached asked s → Reached asked s.persist.2
  /-- A new session over the table of an earlier one. -/
  | restart {s s' : Session τ} (config : Config) : Reached asked s →
    Session.start config s.table = .ok s' → Reached asked s'
  /-- Another session has gone on with the table meanwhile. -/
  | share {s other : Session τ} : Reached asked s → Reached asked other →
    Reached asked { s with table := other.table }
  /-- Other operations of the table fail from now on. -/
  | outage {s : Session τ} {t t' : τ} : Reached asked s → s.table = some t →
    (∀ key, held t' key = held t key) → Reached asked { s with table := some t' }

/-- All answers at hand and in the table are good models and sound cores. -/
structure Keeps (good : Entry Model → Prop) (sound : Entry Core → Prop) (s : Session τ) : Prop where
  named : Cache.PlainName s.config.storeName
  models : ∀ e ∈ s.models.entries, good e
  cores : ∀ e ∈ s.cores.entries, sound e
  table : ∀ t, s.table = some t → ∀ key bytes, held t key = some bytes →
    Cache.WrittenAs good key bytes ∨ Cache.WrittenAs sound key bytes

/-- The oracle says good models and sound cores of the queries asked. -/
structure Yields (asked : Expr → Prop) (good : Entry Model → Prop) (sound : Entry Core → Prop) :
    Prop where
  model : ∀ {budget e m} (key : Binary64), asked e →
    said (Solver.bounded budget) e () = .ok (.sat m) → good ⟨key, e.vars.length, m⟩
  core : ∀ {budget e c} (key : Binary64), asked e →
    said (Solver.bounded budget) e () = .ok (.unsat c) → sound ⟨key, e.vars.length, c⟩

variable {good : Entry Model → Prop} {sound : Entry Core → Prop} {s : Session τ}

theorem plainName_of_validate {config : Config} (h : config.validate = .ok ()) :
    Cache.PlainName config.storeName := by
  rw [Config.validate] at h
  split at h
  · cases h
  · split at h
    · cases h
    · split at h
      · cases h
      · rename_i plain
        intro colon
        refine plain ?_
        rw [Bool.or_eq_true, List.any_eq_true]
        exact Or.inr ⟨':', colon, rfl⟩

theorem keeps_start {config : Config} {table : Option τ} (h : start config table = .ok s)
    (written : ∀ t, table = some t → ∀ key bytes, held t key = some bytes →
      Cache.WrittenAs good key bytes ∨ Cache.WrittenAs sound key bytes) : s.Keeps good sound := by
  obtain ⟨valid, rfl⟩ := start_eq_ok.mp h
  have named := plainName_of_validate valid
  cases table with
  | none => exact ⟨named, by simp [opened, warmLoad], by simp [opened, warmLoad], nofun⟩
  | some t =>
    have models := Cache.good_of_mem_load (c := Cache.empty) named (by decide) (by simp)
      (written t rfl)
    have cores := Cache.good_of_mem_load (c := Cache.empty) named (by decide) (by simp)
      fun key bytes h => (written t rfl key bytes h).symm
    exact ⟨named, models, cores, written⟩

theorem Keeps.measure (h : s.Keeps good sound) (e : Expr) : (s.satDelta e).2.Keeps good sound :=
  ⟨h.named, h.models, h.cores, h.table⟩

theorem Keeps.leaves {budget : Nat} {e : Expr} {s' : Session τ} {asked : Expr → Prop}
    (h : s.Keeps good sound) (yields : Yields asked good sound) (ask : asked e)
    (left : Leaves (Solver.bounded budget) e () s s') : s'.Keeps good sound := by
  refine ⟨left.config ▸ h.named, ?_, ?_, left.table ▸ h.table⟩
  · cases left.models with
    | inl same => exact same ▸ h.models
    | inr added =>
      obtain ⟨m, key, told, stored⟩ := added
      intro entry mem
      rw [stored] at mem
      cases Cache.mem_entries_insert.mp mem with
      | inl new => exact new ▸ yields.model key ask told
      | inr old => exact h.models entry old
  · cases left.cores with
    | inl same => exact same ▸ h.cores
    | inr added =>
      obtain ⟨c, key, told, stored⟩ := added
      intro entry mem
      rw [stored] at mem
      cases Cache.mem_entries_insert.mp mem with
      | inl new => exact new ▸ yields.core key ask told
      | inr old => exact h.cores entry old

theorem Keeps.persist (h : s.Keeps good sound) : s.persist.2.Keeps good sound := by
  rw [Session.persist]
  split
  · exact h
  · rename_i t present
    refine ⟨h.named, h.models, h.cores, fun t' same => ?_⟩
    cases same
    have models := Cache.held_flush h.named h.models (h.table t present) fun _ _ => Or.inl
    exact Cache.held_flush h.named h.cores models fun _ _ => Or.inr

/-- The invariant of every run. -/
theorem Reached.keeps {asked : Expr → Prop} (h : Reached asked s) (yields : Yields asked good sound) :
    s.Keeps good sound := by
  induction h with
  | start empty started =>
    refine keeps_start started fun t present key bytes h => ?_
    rw [empty t present key] at h
    cases h
  | resolve budget e _ ask ih => exact (ih.measure e).leaves yields ask resolve_leaves
  | measure e _ ih => exact ih.measure e
  | clear _ ih => exact ⟨ih.named, by simp [Session.clear], by simp [Session.clear], ih.table⟩
  | persist _ ih => exact ih.persist
  | restart config _ started ih => exact keeps_start started ih.table
  | share _ _ ih other => exact ⟨ih.named, ih.models, ih.cores, other.table⟩
  | outage _ present same ih =>
    refine ⟨ih.named, ih.models, ih.cores, fun t' now key bytes h => ?_⟩
    cases now
    rw [same key] at h
    exact ih.table _ present key bytes h

def afterOne (e : Expr) : Session MemoryTable :=
  ((opened {} (some .empty)).resolve (Solver.bounded 100) e ()).2.1

theorem reached_afterOne {asked : Expr → Prop} {e : Expr} (h : asked e) :
    Reached asked (afterOne e) := by
  have started : start {} (some MemoryTable.empty) = .ok (opened {} (some .empty)) :=
    start_eq_ok.mpr ⟨rfl, rfl⟩
  refine .resolve 100 e (.start (fun t present key => ?_) started) h
  cases present
  rfl

end Session

end Reprise
