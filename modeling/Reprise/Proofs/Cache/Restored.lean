import Reprise.Proofs.Cache.Inserted
import Reprise.Proofs.Cache.Persistence
import Reprise.Proofs.Table.Reliable

/-!
What comes back of a cache that was written to a table. Every entry that could be written and can be
read returns, in the order of insertion, whatever else fails.
-/
set_option autoImplicit false

namespace Reprise

open LawfulTable (held)
open ReliableTable (Sound)

def Outage.readable (o : Outage) (key : String) : Bool := !o.reads key && !o.missing key

namespace Cache

variable {α : Type} [Payload α]

section Keys

theorem toList_numeral (n : Nat) : (numeral n).toList = Text.padded 20 n := by
  simp [numeral, Text.padded, ← String.length_toList]

/-- The numbers of the entries that a machine can count have twenty digits. -/
theorem entryKey_lt (name : String) {m n : Nat} (lt : m < n) (small : n < 1 <<< 64) :
    compare (entryKey α name m) (entryKey α name n) = .lt := by
  apply Text.compare_append_left
  rw [toList_numeral, toList_numeral]
  exact Text.padded_lt (by decide) lt (Nat.lt_trans small (by decide))

theorem entryKey_inj (name : String) {m n : Nat} (hm : m < 1 <<< 64) (hn : n < 1 <<< 64)
    (same : entryKey α name m = entryKey α name n) : m = n := by
  cases Nat.lt_trichotomy m n with
  | inl lt =>
    have order := entryKey_lt (α := α) name lt hn
    simp [same] at order
  | inr rest =>
    refine rest.resolve_right fun gt => ?_
    have order := entryKey_lt (α := α) name gt hm
    simp [same] at order

theorem ascending_keys (name : String) {n : Nat} {entries : List (Entry α)}
    (small : n + entries.length ≤ 1 <<< 64) :
    Ascending ((numbered n entries).map fun slot => entryKey α name slot.seq) := by
  refine List.pairwise_map.mpr ((numbered_increasing n entries).imp_of_mem fun _ mem lt => ?_)
  exact entryKey_lt name lt (Nat.lt_of_lt_of_le (seq_lt_of_mem_numbered mem) small)

theorem filterMap_storedEntry {τ : Type} [Table τ] {t : τ} {name : String} {slots : List (Slot α)}
    (found : Slot α → Bool) (own : ∀ slot ∈ slots, storedEntry α t (entryKey α name slot.seq) =
      if found slot then some slot.entry else none) :
    (slots.map fun slot => entryKey α name slot.seq).filterMap (storedEntry α t) =
      (slots.filter found).map Slot.entry := by
  have each := congrArg (List.filterMap id) (List.map_congr_left own)
  rw [List.filterMap_map, List.filterMap_map] at each
  rw [List.filterMap_map, ← List.filterMap_eq_map, List.filterMap_filter]
  exact each

end Keys

variable {τ : Type} [Table τ] [LawfulTable τ] [ReliableTable τ]

section Writing

def writable (o : Outage) (name : String) (slot : Slot α) : Bool :=
  slot.entry.fits && !o.writes (entryKey α name slot.seq)

theorem flushFrom_cons {t : FaultyTable τ} (sound : Sound t.table) (name : String) (n : Nat)
    (e : Entry α) (rest : List (Entry α)) :
    ∃ t' : FaultyTable τ, Sound t'.table ∧ t'.outage = t.outage ∧
      (∀ key, held t' key = if writable t.outage name ⟨n, e⟩ ∧ key = entryKey α name n
        then some (e.put []) else held t key) ∧
      flushFrom name n (e :: rest) t =
        ((flushFrom name (n + 1) rest t').1.add (if writable t.outage name ⟨n, e⟩ then ⟨1, 0⟩ else ⟨0, 1⟩),
          (flushFrom name (n + 1) rest t').2) := by
  rw [flushFrom, Entry.encode?]
  cases fits : e.fits with
  | false => exact ⟨t, sound, rfl, by simp [writable, fits], by simp [writable, fits]⟩
  | true =>
    obtain ⟨refused, failed⟩ | ⟨accepted, t', done, sound', outage⟩ :=
      FaultyTable.put_eq sound (entryKey α name n) (e.put [])
    · exact ⟨t, sound, rfl, by simp [writable, refused], by simp [writable, refused, failed]⟩
    · refine ⟨t', sound', outage, fun key => ?_, by simp [writable, fits, accepted, done]⟩
      simp [writable, fits, accepted, LawfulTable.held_put done key]

/-- What a table holds after entries have been written to it, and how they are counted. -/
structure Flushed (name : String) (slots : List (Slot α)) (t t' : FaultyTable τ)
    (report : FlushReport) : Prop where
  sound : Sound t'.table
  outage : t'.outage = t.outage
  written : report.written = slots.countP (writable t.outage name)
  dropped : report.dropped = slots.countP fun slot => !writable t.outage name slot
  own : ∀ slot ∈ slots, writable t.outage name slot = true →
    held t' (entryKey α name slot.seq) = some (slot.entry.put [])
  others : ∀ key, (∀ slot ∈ slots, writable t.outage name slot = true →
    key ≠ entryKey α name slot.seq) → held t' key = held t key

theorem flushed_flushFrom {t : FaultyTable τ} (sound : Sound t.table) (name : String) {n : Nat}
    {entries : List (Entry α)} (small : n + entries.length ≤ 1 <<< 64) :
    Flushed name (numbered n entries) t (flushFrom name n entries t).2
      (flushFrom name n entries t).1 := by
  induction entries generalizing n t with
  | nil => exact ⟨sound, rfl, rfl, rfl, (fun _ mem => nomatch mem), fun _ _ => rfl⟩
  | cons e rest ih =>
    rw [List.length_cons] at small
    obtain ⟨t', sound', outage, first, done⟩ := flushFrom_cons sound name n e rest
    have later := ih sound' (n := n + 1) (by omega)
    rw [numbered_cons, done]
    refine ⟨later.sound, later.outage.trans outage, ?_, ?_, ?_, ?_⟩
    · rw [List.countP_cons, ← outage, ← later.written, FlushReport.add]
      split <;> simp
    · rw [List.countP_cons, ← outage, ← later.dropped, FlushReport.add]
      split <;> simp_all
    · intro slot mem writes
      cases List.mem_cons.mp mem with
      | inl same =>
        -- the keys of later numbers are other keys
        subst same
        have kept := later.others (entryKey α name n) fun slot mem _ same => by
          have above := le_seq_of_mem_numbered mem
          have below := seq_lt_of_mem_numbered mem
          have number := entryKey_inj name (by omega) (by omega) same
          omega
        rw [kept, first, if_pos ⟨writes, rfl⟩]
      | inr mem => exact later.own slot mem (outage ▸ writes)
    · intro key apart
      have kept := later.others key fun slot mem writes =>
        apart slot (List.mem_cons_of_mem _ mem) (outage ▸ writes)
      rw [kept, first, if_neg fun ⟨writes, same⟩ => apart _ List.mem_cons_self writes same]

theorem flushed_flush {t : FaultyTable τ} (sound : Sound t.table) (name : String) {c : Cache α}
    (small : c.entries.length ≤ 1 <<< 64) :
    Flushed name (numbered 0 c.entries) t (c.flush name t).2 (c.flush name t).1 :=
  flushed_flushFrom sound name ((Nat.zero_add c.entries.length).symm ▸ small)

end Writing

section Reading

theorem storedEntry_eq (t : FaultyTable τ) (key : String) : storedEntry α t key =
    if t.outage.readable key then (held t key).bind Entry.decode? else none := by
  rw [storedEntry, FaultyTable.get?_eq, Outage.readable]
  cases t.outage.reads key with
  | true => rfl
  | false =>
    cases t.outage.missing key with
    | true => rfl
    | false => cases held t key <;> rfl

theorem storedEntry_of_unheld {t : FaultyTable τ} {key : String} (h : held t key = none) :
    storedEntry α t key = none := by
  rw [storedEntry_eq, h, Option.bind_none, ite_self]

theorem isSome_held {t : FaultyTable τ} {key : String} {e : Entry α} (h : storedEntry α t key = some e) :
    (held t key).isSome := by
  cases bytes : held t key with
  | some _ => rfl
  | none =>
    rw [storedEntry_of_unheld bytes] at h
    cases h

theorem load_of_unlisted {t : FaultyTable τ} (sound : Sound t.table) (h : t.outage.listing = true)
    (c : Cache α) (name : String) : c.load name t = (0, c) := by
  obtain ⟨-, failed⟩ | ⟨listing, -⟩ := FaultyTable.keysMatching_eq sound (keyPrefix α name ++ "*")
  · rw [load, failed]
  · rw [h] at listing
    cases listing

/-- A fresh cache goes through all keys of its name and kind in their order. -/
theorem load_of_listed {t : FaultyTable τ} (sound : Sound t.table) (h : t.outage.listing = false)
    (name : String) : ∃ keys : List String, Ascending keys ∧
      (∀ key, key ∈ keys ↔ (held t key).isSome ∧ Pattern.begins (keyPrefix α name) key = true) ∧
      empty.load name t = ((keys.filterMap (storedEntry α t)).length,
        ofEntries (keys.filterMap (storedEntry α t))) := by
  obtain ⟨listing, -⟩ | ⟨-, listed, done, distinct, complete⟩ :=
    FaultyTable.keysMatching_eq sound (keyPrefix α name ++ "*")
  · rw [h] at listing
    cases listing
  · refine ⟨_, ascending_mergeSort distinct, fun key => ?_, ?_⟩
    · rw [List.mem_mergeSort, complete, Pattern.accepts_star]
    · rw [load, done]
      rfl

theorem mem_entries_load {t : FaultyTable τ} (sound : Sound t.table) (h : t.outage.listing = false)
    {name : String} {e : Entry α} : e ∈ (empty.load name t).2.entries ↔
      ∃ key, Pattern.begins (keyPrefix α name) key = true ∧ storedEntry α t key = some e := by
  obtain ⟨keys, -, complete, loaded⟩ := load_of_listed (α := α) sound h name
  rw [loaded, entries_ofEntries, List.mem_filterMap]
  constructor
  · intro ⟨key, mem, stored⟩
    exact ⟨key, ((complete key).mp mem).2, stored⟩
  · intro ⟨key, begins, stored⟩
    exact ⟨key, (complete key).mpr ⟨isSome_held stored, begins⟩, stored⟩

theorem sublist_entries_load {t : FaultyTable τ} (sound : Sound t.table) (h : t.outage.listing = false)
    {name : String} {entries : List (Entry α)} (small : entries.length ≤ 1 <<< 64)
    (own : ∀ slot ∈ numbered 0 entries, storedEntry α t (entryKey α name slot.seq) = some slot.entry) :
    entries.Sublist (empty.load name t).2.entries := by
  obtain ⟨keys, ascending, complete, loaded⟩ := load_of_listed (α := α) sound h name
  have numbers : ((numbered 0 entries).map fun slot => entryKey α name slot.seq).Sublist keys := by
    refine (ascending_keys name ((Nat.zero_add _).symm ▸ small)).sublist_of_subset ascending fun key mem => ?_
    obtain ⟨slot, mem', rfl⟩ := List.mem_map.mp mem
    exact (complete _).mpr ⟨isSome_held (own slot mem'), begins_entryKey name slot.seq⟩
  have found : ((numbered 0 entries).map fun slot => entryKey α name slot.seq).filterMap
      (storedEntry α t) = entries := by
    rw [filterMap_storedEntry (fun _ => true) own, List.filter_eq_self.mpr fun _ _ => rfl,
      map_entry_numbered]
  rw [loaded, entries_ofEntries]
  exact found ▸ numbers.filterMap _

theorem load_of_numbered {t : FaultyTable τ} (sound : Sound t.table) (h : t.outage.listing = false)
    {name : String} {entries : List (Entry α)} (small : entries.length ≤ 1 <<< 64)
    (found : Slot α → Bool)
    (own : ∀ slot ∈ numbered 0 entries, storedEntry α t (entryKey α name slot.seq) =
      if found slot then some slot.entry else none)
    (only : ∀ key, Pattern.begins (keyPrefix α name) key = true → (storedEntry α t key).isSome →
      ∃ slot ∈ numbered 0 entries, entryKey α name slot.seq = key) :
    empty.load name t = ((((numbered 0 entries).filter found).map Slot.entry).length,
      ofEntries (((numbered 0 entries).filter found).map Slot.entry)) := by
  obtain ⟨keys, ascending, complete, loaded⟩ := load_of_listed (α := α) sound h name
  have numbers := ascending_keys (α := α) name ((Nat.zero_add entries.length).symm ▸ small)
  rw [loaded, ascending.filterMap_eq numbers, filterMap_storedEntry found own]
  intro key stored
  obtain ⟨e, stored'⟩ := Option.isSome_iff_exists.mp stored
  rw [complete]
  constructor
  · intro ⟨_, begins⟩
    exact List.mem_map.mpr (only key begins stored)
  · intro mem
    obtain ⟨slot, -, rfl⟩ := List.mem_map.mp mem
    exact ⟨isSome_held stored', begins_entryKey name slot.seq⟩

end Reading

section Restoring

variable {name : String} {entries : List (Entry α)} {t t' : FaultyTable τ} {report : FlushReport}

theorem Flushed.storedEntry_others {β : Type} [Payload β] {slots : List (Slot β)}
    (h : Flushed name slots t t' report) (o : Outage) {key : String}
    (apart : ∀ slot ∈ slots, writable t.outage name slot = true → key ≠ entryKey β name slot.seq) :
    storedEntry α (t'.during o) key = storedEntry α (t.during o) key := by
  rw [storedEntry_eq, storedEntry_eq, FaultyTable.held_during, FaultyTable.held_during,
    h.others key apart]
  rfl

theorem Flushed.exists_slot (h : Flushed name (numbered 0 entries) t t' report) (o : Outage)
    {key : String} (before : storedEntry α (t.during o) key = none)
    (stored : (storedEntry α (t'.during o) key).isSome) :
    ∃ slot ∈ numbered 0 entries, entryKey α name slot.seq = key := by
  refine Decidable.byContradiction fun absent => ?_
  have apart : ∀ slot ∈ numbered 0 entries, writable t.outage name slot = true →
      key ≠ entryKey α name slot.seq := fun slot mem _ same => absent ⟨slot, mem, same.symm⟩
  rw [h.storedEntry_others o apart, before] at stored
  cases stored

variable [LawfulPayload α]

theorem Flushed.storedEntry_own {slots : List (Slot α)} (h : Flushed name slots t t' report)
    (o : Outage) {slot : Slot α} (mem : slot ∈ slots) (writes : writable t.outage name slot = true) :
    storedEntry α (t'.during o) (entryKey α name slot.seq) =
      if o.readable (entryKey α name slot.seq) then some slot.entry else none := by
  have encoded : slot.entry.encode? = some (slot.entry.put []) := if_pos (Bool.and_eq_true_iff.mp writes).1
  rw [storedEntry_eq, FaultyTable.held_during, h.own slot mem writes, Option.bind_some,
    Entry.decode?_encode? encoded]
  rfl

theorem Flushed.storedEntry_numbered (h : Flushed name (numbered 0 entries) t t' report)
    (small : entries.length ≤ 1 <<< 64) (o : Outage)
    (before : ∀ slot ∈ numbered 0 entries, storedEntry α (t.during o) (entryKey α name slot.seq) = none)
    {slot : Slot α} (mem : slot ∈ numbered 0 entries) :
    storedEntry α (t'.during o) (entryKey α name slot.seq) =
      if writable t.outage name slot && o.readable (entryKey α name slot.seq) then some slot.entry
      else none := by
  cases writes : writable t.outage name slot with
  | true => exact h.storedEntry_own o mem writes
  | false =>
    rw [h.storedEntry_others o fun other mem' writes' same => ?_]
    · exact before slot mem
    · -- no other slot has the key of this one
      have below := seq_lt_of_mem_numbered mem
      have below' := seq_lt_of_mem_numbered mem'
      have number := entryKey_inj name (by omega) (by omega) same
      rw [eq_of_seq_eq mem mem' number, writes'] at writes
      cases writes

/-- The entries that are written in the one outage and can be read in the other. -/
def survivors (o o' : Outage) (name : String) (entries : List (Entry α)) : List (Entry α) :=
  ((numbered 0 entries).filter fun slot =>
    writable o name slot && o'.readable (entryKey α name slot.seq)).map Slot.entry

/-- A fresh cache loads what survives of a cache that was written to unused keys. -/
theorem restored_entries {table : τ} (sound : Sound table)
    (unused : ∀ key, Pattern.begins (keyPrefix α name) key = true → held table key = none)
    (small : entries.length ≤ 1 <<< 64) (o o' : Outage) :
    let c := ofEntries entries
    let flushed : FlushReport × FaultyTable τ := c.flush name ⟨table, o⟩
    let loaded : Nat × Cache α := empty.load name (flushed.2.during o')
    c.entries = entries ∧
    flushed.1.written = (numbered 0 entries).countP (writable o name) ∧
    flushed.1.dropped = ((numbered 0 entries).countP fun slot => !writable o name slot) ∧
    (∀ key, (∀ slot ∈ numbered 0 entries, writable o name slot = true →
      key ≠ entryKey α name slot.seq) → held flushed.2 key = held table key) ∧
    (o'.listing = false →
      loaded.2.entries = survivors o o' name entries ∧ loaded.1 = loaded.2.size) ∧
    (o'.listing = true → loaded = (0, empty)) := by
  intro c flushed loaded
  have entries_eq : c.entries = entries := entries_ofEntries entries
  have done : Flushed name (numbered 0 entries) ⟨table, o⟩ flushed.2 flushed.1 :=
    entries_eq ▸ flushed_flush sound name (entries_eq.symm ▸ small)
  have before : ∀ key, Pattern.begins (keyPrefix α name) key = true →
      storedEntry α (FaultyTable.during ⟨table, o⟩ o') key = none :=
    fun key begins => storedEntry_of_unheld (unused key begins)
  refine ⟨entries_eq, done.written, done.dropped, done.others, fun listing => ?_, fun listing => ?_⟩
  · have result : loaded =
        ((survivors o o' name entries).length, ofEntries (survivors o o' name entries)) :=
      load_of_numbered (t := flushed.2.during o') done.sound listing small _
        (fun slot mem => done.storedEntry_numbered small o'
          (fun slot _ => before _ (begins_entryKey name slot.seq)) mem)
        fun key begins stored => done.exists_slot o' (before key begins) stored
    rw [result]
    exact ⟨entries_ofEntries _, (size_ofEntries _).symm⟩
  · exact load_of_unlisted (t := flushed.2.during o') done.sound listing empty name

/-- Of three entries one cannot be written and another not be read. -/
theorem restored_last_of_three :
    let entry (n : Int64) : Entry Model := ⟨.ofInt n.toInt, 1, .ofList [(⟨"x", .int, 0, 9⟩, .int n)]⟩
    let table : MemoryTable := MemoryTable.empty.put "other" [1]
    let o : Outage := { Outage.none with writes := fun key => key == entryKey Model "cache" 1 }
    let o' : Outage := { Outage.none with reads := fun key => key == entryKey Model "cache" 0 }
    let flushed := (ofEntries [entry 3, entry 2, entry 1]).flush "cache" (FaultyTable.mk table o)
    flushed.1.written = 2 ∧ flushed.1.dropped = 1 ∧
      ((empty : Cache Model).load "cache" (flushed.2.during o')).2.entries = [entry 1] := by
  intro entry table o o' flushed
  have sound : Sound table := MemoryTable.nodup_keys_replaceIn List.Pairwise.nil
  have unused : ∀ key, Pattern.begins (keyPrefix Model "cache") key = true → held table key = none := by
    intro key begins
    have apart : key ≠ "other" := by
      rintro rfl
      revert begins
      decide
    exact MemoryTable.get?_put_of_ne .empty apart [1]
  have small : [entry 3, entry 2, entry 1].length ≤ 1 <<< 64 := by decide
  obtain ⟨-, written, dropped, -, loaded, -⟩ := restored_entries sound unused small o o'
  refine ⟨written.trans (by decide +kernel), dropped.trans (by decide +kernel), ?_⟩
  exact (loaded rfl).1.trans (by decide +kernel)

end Restoring

end Cache

end Reprise
