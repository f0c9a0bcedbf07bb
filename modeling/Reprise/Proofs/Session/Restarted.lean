import Reprise.Proofs.Cache.Rewritten
import Reprise.Proofs.Session.Reached
import Reprise.Proofs.Session.Transaction

/-!
What a new session has of the one before it. A table gives nothing up: the entries in memory are
written over the first numbers, and entries under later numbers come back with them.
-/
set_option autoImplicit false

namespace Reprise

open ReliableTable (Sound)

/-- Some writes are refused, all else goes well. -/
def Outage.refusing (writes : String → Bool) : Outage := { Outage.none with writes := writes }

theorem Outage.readable_refusing (writes : String → Bool) (key : String) :
    (Outage.refusing writes).readable key = true := rfl

namespace Session

section Running

variable {τ : Type}

/-- Queries only add to the caches. -/
structure Grown (s₀ s : Session τ) : Prop where
  models : ∃ es, s.models.entries = s₀.models.entries ++ es
  cores : ∃ es, s.cores.entries = s₀.cores.entries ++ es

theorem Ends.grown {e : Expr} {s s' : Session τ} {result : Except Fault Resolution}
    {questions : List Expr} (built : s.Built) (h : Ends e s s' result questions) : Grown s s' := by
  obtain ⟨⟨es₀, start⟩, fs₀, start'⟩ := built
  obtain ⟨es, fs, models, cores⟩ := h.inserts
  rw [start, Cache.foldl_insert_ofEntries] at models
  rw [start', Cache.foldl_insert_ofEntries] at cores
  refine ⟨⟨es, ?_⟩, fs, ?_⟩
  · rw [models, start, Cache.entries_ofEntries, Cache.entries_ofEntries]
  · rw [cores, start', Cache.entries_ofEntries, Cache.entries_ofEntries]

theorem Grown.trans {s₀ s s' : Session τ} (h : Grown s₀ s) (h' : Grown s s') : Grown s₀ s' := by
  obtain ⟨⟨es, models⟩, fs, cores⟩ := h
  obtain ⟨⟨es', models'⟩, fs', cores'⟩ := h'
  refine ⟨⟨es ++ es', ?_⟩, fs ++ fs', ?_⟩
  · rw [models', models, List.append_assoc]
  · rw [cores', cores, List.append_assoc]

/-- What stays in the course of a run. -/
structure Continued (s₀ : Session τ) (cleared : Bool) (s : Session τ) : Prop where
  config : s.config = s₀.config
  table : s.table = s₀.table
  built : s.Built
  grown : cleared = false → Grown s₀ s

/-- The sessions that queries and clearing lead to; the flag tells whether there was any clearing. -/
inductive Continues (s₀ : Session τ) : Bool → Session τ → Prop
  | begin : Continues s₀ false s₀
  | resolve {cleared : Bool} {s : Session τ} {ω : Type} (ask : Oracle ω) (e : Expr) (w : ω) :
    Continues s₀ cleared s → Continues s₀ cleared (s.resolve ask e w).2.1
  | measure {cleared : Bool} {s : Session τ} (e : Expr) :
    Continues s₀ cleared s → Continues s₀ cleared (s.satDelta e).2
  | clear {cleared : Bool} {s : Session τ} : Continues s₀ cleared s → Continues s₀ true s.clear

theorem Continues.continued {s₀ s : Session τ} {cleared : Bool} (start : s₀.Built)
    (h : Continues s₀ cleared s) : Continued s₀ cleared s := by
  induction h with
  | begin =>
    exact ⟨rfl, rfl, start, fun _ => ⟨⟨[], (List.append_nil _).symm⟩, [], (List.append_nil _).symm⟩⟩
  | @resolve cleared s ω ask e w _ ih =>
    have left : Leaves ask e w (s.satDelta e).2 (s.resolve ask e w).2.1 := resolve_leaves
    have ended : Transacts e [] s (s.resolve ask e w) (s.resolve ask.noting e (w, [])) := resolve_ends
    obtain ⟨questions, -, ends⟩ := ended
    exact ⟨left.config.trans ih.config, left.table.trans ih.table, ih.built.ends ends,
      fun uncleared => (ih.grown uncleared).trans (ends.grown ih.built)⟩
  | measure e _ ih =>
    exact ⟨ih.config, ih.table, ih.built,
      fun uncleared => ⟨(ih.grown uncleared).models, (ih.grown uncleared).cores⟩⟩
  | clear _ ih => exact ⟨ih.config, ih.table, ⟨⟨[], rfl⟩, [], rfl⟩, nofun⟩

end Running

variable {τ : Type} [Table τ] [LawfulTable τ] [ReliableTable τ]

/-- What a restart makes of the answers of one kind: those the session was started with, those it has
at the end, and those of the new session. -/
structure Restores {α : Type} [Payload α] (name : String) (t : FaultyTable τ) (cleared : Bool)
    (before now after : Cache α) : Prop where
  /-- Nothing that was in memory is lost. -/
  kept : now.entries.Sublist after.entries
  /-- Nothing is there that was not in memory at the end or at the start. -/
  known : ∀ e ∈ after.entries, e ∈ now.entries ∨ e ∈ before.entries
  /-- The table has held entries under the first numbers only, without a gap. -/
  numbered : ∀ old, Cache.Holds name t old → old.length ≤ 1 <<< 64 → before.entries = old ∧
    after.entries = now.entries ++ old.drop now.entries.length ∧
    (cleared = false → after.entries = now.entries)
  /-- All entries that the table has held were written over. -/
  covered : (∀ key, Pattern.begins (Cache.keyPrefix α name) key = true →
    (Cache.storedEntry α t key).isSome →
      ∃ i, i < now.entries.length ∧ Cache.entryKey α name i = key) → after.entries = now.entries

/-- Writing what is in memory decides what is loaded again. -/
theorem restores_of_rewritten {α : Type} [Payload α] {name : String} {t t' : FaultyTable τ}
    {cleared : Bool} {now : Cache α} (sound : Sound t.table) (listing : t.outage.listing = false)
    (sound' : Sound t'.table) (listing' : t'.outage.listing = false)
    (small : now.entries.length ≤ 1 <<< 64)
    (grown : cleared = false → ∃ es, now.entries = (Cache.load .empty name t).2.entries ++ es)
    (written : Cache.Rewritten name now.entries t t') :
    Restores name t cleared (Cache.load .empty name t).2 now (Cache.load .empty name t').2 where
  kept := written.sublist_load sound' listing' small
  known _ mem := written.mem_load sound' listing' sound listing mem
  numbered old holds small_old := by
    have before : (Cache.load .empty name t).2.entries = old := by
      rw [holds.load sound listing small_old, Cache.entries_ofEntries]
    have length : (now.entries ++ old.drop now.entries.length).length ≤ 1 <<< 64 := by
      rw [List.length_append, List.length_drop]
      omega
    have after : (Cache.load .empty name t').2.entries = now.entries ++ old.drop now.entries.length := by
      rw [(written.holds_append holds small_old).load sound' listing' length, Cache.entries_ofEntries]
    refine ⟨before, after, fun uncleared => ?_⟩
    obtain ⟨es, added⟩ := grown uncleared
    have rest : old.drop now.entries.length = [] := by
      rw [List.drop_eq_nil_iff, added, before, List.length_append]
      exact Nat.le_add_right _ _
    rw [after, rest, List.append_nil]
  covered below := by
    rw [(written.holds below).load sound' listing' small, Cache.entries_ofEntries]

theorem persist_flushes {s : Session (FaultyTable τ)} {t : FaultyTable τ} (present : s.table = some t)
    (sound : Sound t.table) (small : s.models.entries.length ≤ 1 <<< 64)
    (small' : s.cores.entries.length ≤ 1 <<< 64) :
    ∃ (t₁ t₂ : FaultyTable τ) (report report' : FlushReport),
      Cache.Flushed s.config.storeName (Cache.numbered 0 s.models.entries) t t₁ report ∧
      Cache.Flushed s.config.storeName (Cache.numbered 0 s.cores.entries) t₁ t₂ report' ∧
      s.persist = (report.add report', { s with table := some t₂ }) := by
  have models := Cache.flushed_flush sound s.config.storeName small
  have cores := Cache.flushed_flush models.sound s.config.storeName small'
  refine ⟨_, _, _, _, models, cores, ?_⟩
  rw [persist, present]

/-- A new session has what was in memory, and besides only what the table held beyond that. -/
theorem restart_restores {table : τ} (sound : Sound table) (writes : String → Bool) {config : Config}
    {s₀ s : Session (FaultyTable τ)} {cleared : Bool}
    (started : start config (some ⟨table, .refusing writes⟩) = .ok s₀) (run : Continues s₀ cleared s)
    (kept : s.persist.1.dropped = 0) (small : s.models.entries.length ≤ 1 <<< 64)
    (small' : s.cores.entries.length ≤ 1 <<< 64) :
    ∃ s', start config s.persist.2.table = .ok s' ∧
      Restores config.storeName ⟨table, .refusing writes⟩ cleared s₀.models s.models s'.models ∧
      Restores config.storeName ⟨table, .refusing writes⟩ cleared s₀.cores s.cores s'.cores := by
  obtain ⟨valid, rfl⟩ := start_eq_ok.mp started
  have plain := plainName_of_validate valid
  have continued := run.continued (built_opened _ _)
  have name : s.config.storeName = config.storeName := congrArg Config.storeName continued.config
  obtain ⟨t₁, t₂, report, report', models, cores, persisted⟩ :=
    persist_flushes continued.table sound small small'
  rw [name] at models cores
  rw [persisted] at kept ⊢
  have both : report.dropped + report'.dropped = 0 := kept
  have all : report.dropped = 0 := by omega
  have all' : report'.dropped = 0 := by omega
  have listing : t₂.outage.listing = false := by rw [cores.outage, models.outage]; rfl
  have readable : ∀ key, t₁.outage.readable key = true := by
    rw [models.outage]
    exact Outage.readable_refusing writes
  refine ⟨_, start_eq_ok.mpr ⟨valid, rfl⟩, ?_, ?_⟩
  · refine restores_of_rewritten sound rfl cores.sound listing small
      (fun uncleared => (continued.grown uncleared).models) ?_
    exact (models.rewritten (Outage.readable_refusing writes) all).congr (fun _ _ => rfl)
      fun _ begins => cores.storedEntry_foreign plain (by decide) begins
  · refine restores_of_rewritten sound rfl cores.sound listing small'
      (fun uncleared => (continued.grown uncleared).cores) ?_
    exact (cores.rewritten readable all').congr
      (fun _ begins => (models.storedEntry_foreign plain (by decide) begins).symm) fun _ _ => rfl

section Samples

/-- The session of one query over an empty table comes back as it was. -/
theorem restart_of_first_query :
    let s₀ := opened {} (some (FaultyTable.mk MemoryTable.empty (.refusing fun _ => false)))
    let s := (s₀.resolve (Solver.bounded 1000) (countBelow (.int 5)) ()).2.1
    ∃ s', start {} s.persist.2.table = .ok s' ∧ s'.models.entries = s.models.entries ∧
      s'.cores.entries = s.cores.entries := by
  intro s₀ s
  have started : start {} (some (FaultyTable.mk MemoryTable.empty (.refusing fun _ => false))) = .ok s₀ :=
    start_eq_ok.mpr ⟨rfl, rfl⟩
  have small : s.models.entries.length ≤ 1 <<< 64 := by decide +kernel
  have small' : s.cores.entries.length ≤ 1 <<< 64 := by decide +kernel
  obtain ⟨s', restarted, models, cores⟩ := restart_restores List.Pairwise.nil _ started
    (.resolve (Solver.bounded 1000) (countBelow (.int 5)) () .begin) (by decide +kernel) small small'
  refine ⟨s', restarted, models.covered ?_, cores.covered ?_⟩
  · exact fun key _ stored => nomatch stored
  · exact fun key _ stored => nomatch stored

/-- A model that a session has cleared from memory is there again in the next. -/
theorem cleared_model_returns :
    ¬ ∀ (table : MemoryTable) (config : Config) (s₀ s s' : Session (FaultyTable MemoryTable))
      (cleared : Bool), Sound table → start config (some ⟨table, .none⟩) = .ok s₀ →
      Continues s₀ cleared s → s.persist.1.dropped = 0 → start config s.persist.2.table = .ok s' →
      s'.models.entries = s.models.entries ∧ s'.cores.entries = s.cores.entries := by
  intro claim
  let model : Entry Model := ⟨0, 1, .ofList [(count, .int 7)]⟩
  let table := MemoryTable.empty.put (Cache.entryKey Model "grulia" 0) (model.put [])
  let s := (opened {} (some (FaultyTable.mk table .none))).clear
  have sound : Sound table := MemoryTable.nodup_keys_replaceIn List.Pairwise.nil
  have same := (claim table {} _ s _ true sound (start_eq_ok.mpr ⟨rfl, rfl⟩) (.clear .begin)
    (by decide +kernel) (start_eq_ok.mpr ⟨rfl, rfl⟩)).1
  have lengths := congrArg List.length same
  revert lengths
  decide +kernel

end Samples

end Session

end Reprise
