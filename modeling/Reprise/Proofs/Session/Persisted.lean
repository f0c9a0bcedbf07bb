import Reprise.Proofs.Session.Restarted

/-!
A session over a table that does not fail. It is a session over a table that may fail and happens not
to, so all that it has in memory when it persists is loaded by the next one.
-/
set_option autoImplicit false

namespace Reprise

open ReliableTable (Sound)

def FaultyTable.unfailing {τ : Type} (t : τ) : FaultyTable τ := ⟨t, .none⟩

theorem FaultyTable.put_unfailing {τ : Type} [Table τ] (t : τ) (key : String) (value : Bytes) :
    Table.put (unfailing t) key value = (Table.put t key value).map unfailing := rfl

namespace Cache

variable {α : Type} [Payload α] {τ : Type} [Table τ]

theorem flushFrom_unfailing (name : String) (n : Nat) (entries : List (Entry α)) (t : τ) :
    flushFrom name n entries (FaultyTable.unfailing t) =
      ((flushFrom name n entries t).1, .unfailing (flushFrom name n entries t).2) := by
  induction entries generalizing n t with
  | nil => rfl
  | cons e rest ih =>
    rw [flushFrom, flushFrom]
    cases e.encode? with
    | none => simp only [ih]
    | some bytes =>
      simp only [FaultyTable.put_unfailing]
      cases Table.put t (entryKey α name n) bytes with
      | error f => simp only [Except.map, ih]
      | ok t' => simp only [Except.map, ih]

theorem load_unfailing (c : Cache α) (name : String) (t : τ) :
    c.load name (FaultyTable.unfailing t) = c.load name t := rfl

end Cache

namespace Session

theorem Continues.resolveAll {τ ω : Type} {s₀ s : Session τ} {cleared : Bool} (h : Continues s₀ cleared s)
    (ask : Oracle ω) (es : List Expr) (w : ω) :
    Continues s₀ cleared (Session.resolveAll ask es s w).2.1 := by
  induction es generalizing s w with
  | nil => exact h
  | cons e rest ih => exact ih (h.resolve ask e w) _

variable {τ : Type} [Table τ]

def unfailing (s : Session τ) : Session (FaultyTable τ) where
  config := s.config
  deltas := s.deltas
  models := s.models
  cores := s.cores
  table := s.table.map .unfailing
  tally := s.tally

theorem persist_unfailing (s : Session τ) :
    s.unfailing.persist = (s.persist.1, s.persist.2.unfailing) := by
  cases present : s.table with
  | none => simp [persist, unfailing, present]
  | some t =>
    simp only [persist, unfailing, present, Option.map_some, Cache.flush, Cache.flushFrom_unfailing]

theorem exists_persist {s : Session τ} {t : τ} (present : s.table = some t) :
    ∃ t', s.persist.2.table = some t' ∧ s.persist.2.config = s.config := by
  rw [persist, present]
  exact ⟨_, rfl, rfl⟩

variable [LawfulTable τ] [ReliableTable τ]

theorem persist_rewrites {s : Session (FaultyTable τ)} {t : FaultyTable τ}
    (present : s.table = some t) (sound : Sound t.table)
    (readable : ∀ key, t.outage.readable key = true) (plain : Cache.PlainName s.config.storeName)
    (small : s.models.entries.length ≤ 1 <<< 64) (small' : s.cores.entries.length ≤ 1 <<< 64)
    (kept : s.persist.1.dropped = 0) :
    ∃ t', s.persist.2.table = some t' ∧ Sound t'.table ∧ t'.outage = t.outage ∧
      Cache.Rewritten s.config.storeName s.models.entries t t' ∧
        Cache.Rewritten s.config.storeName s.cores.entries t t' := by
  obtain ⟨t₁, t₂, report, report', models, cores, persisted⟩ :=
    persist_flushes present sound small small'
  rw [persisted] at kept ⊢
  have both : report.dropped + report'.dropped = 0 := kept
  have readable' : ∀ key, t₁.outage.readable key = true := by rwa [models.outage]
  refine ⟨t₂, rfl, cores.sound, cores.outage.trans models.outage, ?_, ?_⟩
  · exact (models.rewritten readable (by omega)).congr (fun _ _ => rfl)
      fun _ begins => cores.storedEntry_foreign plain (by decide) begins
  · -- the models that were written first lie under other keys
    exact (cores.rewritten readable' (by omega)).congr
      (fun _ begins => (models.storedEntry_foreign plain (by decide) begins).symm) fun _ _ => rfl

/-- Nothing that was in memory when the session persisted is missing in the next one. -/
theorem persist_keeps {s : Session τ} {t : τ} (present : s.table = some t) (sound : Sound t)
    (plain : Cache.PlainName s.config.storeName) (small : s.models.entries.length ≤ 1 <<< 64)
    (small' : s.cores.entries.length ≤ 1 <<< 64) (kept : s.persist.1.dropped = 0) :
    ∃ t', s.persist.2.table = some t' ∧
      s.models.entries.Sublist (opened s.config (some t')).models.entries ∧
        s.cores.entries.Sublist (opened s.config (some t')).cores.entries := by
  have present' : s.unfailing.table = some (.unfailing t) := by rw [unfailing, present]; rfl
  have kept' : s.unfailing.persist.1.dropped = 0 := by rw [persist_unfailing]; exact kept
  obtain ⟨t', persisted, sound', outage, models, cores⟩ :=
    persist_rewrites present' sound (fun _ => rfl) plain small small' kept'
  rw [persist_unfailing] at persisted
  obtain ⟨table, after, rfl⟩ := Option.map_eq_some_iff.mp persisted
  have models' := models.sublist_load sound' rfl small
  have cores' := cores.sublist_load sound' rfl small'
  rw [Cache.load_unfailing] at models' cores'
  exact ⟨table, after, models', cores'⟩

end Session

end Reprise
