import Reprise.Proofs.Cache.Restored

/-!
Writing a cache over what a table holds already. The entries take the first numbers, and what was held
under other keys stays.
-/
set_option autoImplicit false

namespace Reprise

open ReliableTable (Sound)

namespace Cache

variable {α : Type} [Payload α] {name : String} {entries old : List (Entry α)}

section Contents

variable {τ : Type} [Table τ] {t t' u u' : τ}

/-- The readable entries of a name and kind are these, each under its number. -/
structure Holds (name : String) (t : τ) (entries : List (Entry α)) : Prop where
  own : ∀ (i : Nat) (e : Entry α), entries[i]? = some e → storedEntry α t (entryKey α name i) = some e
  only : ∀ key, Pattern.begins (keyPrefix α name) key = true → (storedEntry α t key).isSome →
    ∃ i, i < entries.length ∧ entryKey α name i = key

/-- To one kind of answers, the entries were written under the first numbers and nothing else changed. -/
structure Rewritten (name : String) (entries : List (Entry α)) (t t' : τ) : Prop where
  own : ∀ (i : Nat) (e : Entry α), entries[i]? = some e → storedEntry α t' (entryKey α name i) = some e
  others : ∀ key, Pattern.begins (keyPrefix α name) key = true →
    (∀ i, i < entries.length → key ≠ entryKey α name i) → storedEntry α t' key = storedEntry α t key

namespace Rewritten

theorem congr (h : Rewritten name entries t t')
    (before : ∀ key, Pattern.begins (keyPrefix α name) key = true →
      storedEntry α u key = storedEntry α t key)
    (after : ∀ key, Pattern.begins (keyPrefix α name) key = true →
      storedEntry α u' key = storedEntry α t' key) : Rewritten name entries u u' where
  own i e at_i := by
    rw [after _ (begins_entryKey name i)]
    exact h.own i e at_i
  others key begins apart := by
    rw [after key begins, before key begins]
    exact h.others key begins apart

theorem cases_key (h : Rewritten name entries t t') {key : String}
    (begins : Pattern.begins (keyPrefix α name) key = true) :
    (∃ i, i < entries.length ∧ entryKey α name i = key) ∨
      storedEntry α t' key = storedEntry α t key := by
  by_cases first : ∃ i, i < entries.length ∧ entryKey α name i = key
  · exact Or.inl first
  · exact Or.inr (h.others key begins fun i lt same => first ⟨i, lt, same.symm⟩)

theorem holds (h : Rewritten name entries t t')
    (below : ∀ key, Pattern.begins (keyPrefix α name) key = true → (storedEntry α t key).isSome →
      ∃ i, i < entries.length ∧ entryKey α name i = key) : Holds name t' entries where
  own := h.own
  only key begins stored := by
    cases h.cases_key begins with
    | inl first => exact first
    | inr same => exact below key begins (same ▸ stored)

theorem holds_append (h : Rewritten name entries t t') (before : Holds name t old)
    (small : old.length ≤ 1 <<< 64) : Holds name t' (entries ++ old.drop entries.length) where
  own i e at_i := by
    by_cases lt : i < entries.length
    · rw [List.getElem?_append_left lt] at at_i
      exact h.own i e at_i
    · rw [List.getElem?_append_right (Nat.le_of_not_lt lt), List.getElem?_drop,
        Nat.add_sub_cancel' (Nat.le_of_not_lt lt)] at at_i
      have within := (List.getElem?_eq_some_iff.mp at_i).1
      rw [h.others _ (begins_entryKey name i) fun j below same => ?_]
      · exact before.own i e at_i
      · have number := entryKey_inj name (by omega) (by omega) same
        omega
  only key begins stored := by
    rw [List.length_append, List.length_drop]
    cases h.cases_key begins with
    | inl first =>
      obtain ⟨i, lt, same⟩ := first
      exact ⟨i, by omega, same⟩
    | inr same =>
      obtain ⟨i, lt, number⟩ := before.only key begins (same ▸ stored)
      exact ⟨i, by omega, number⟩

end Rewritten

end Contents

variable {τ : Type} [Table τ] [LawfulTable τ] [ReliableTable τ] {t t' : FaultyTable τ}
  {report : FlushReport}

section Writing

theorem Flushed.during {β : Type} [Payload β] {slots : List (Slot β)}
    (h : Flushed name slots t t' report) : t'.during t.outage = t' := by
  rw [← h.outage, FaultyTable.during_outage]

theorem Flushed.storedEntry_foreign {β : Type} [Payload β] [LawfulPayload α] [LawfulPayload β]
    {slots : List (Slot β)} (h : Flushed name slots t t' report) (plain : PlainName name)
    (apart : Payload.kind α ≠ Payload.kind β) {key : String}
    (begins : Pattern.begins (keyPrefix α name) key = true) :
    storedEntry α t' key = storedEntry α t key := by
  have other : ∀ slot ∈ slots, writable t.outage name slot = true → key ≠ entryKey β name slot.seq := by
    rintro slot - - rfl
    exact apart (kind_eq_of_begins plain plain begins)
  have same := h.storedEntry_others (α := α) t.outage other
  rwa [h.during, FaultyTable.during_outage] at same

theorem Flushed.rewritten [LawfulPayload α] (h : Flushed name (numbered 0 entries) t t' report)
    (readable : ∀ key, t.outage.readable key = true) (all : report.dropped = 0) :
    Rewritten name entries t t' where
  own i e at_i := by
    have mem : (⟨i, e⟩ : Slot α) ∈ numbered 0 entries := mem_numbered.mpr at_i
    have writes : writable t.outage name (⟨i, e⟩ : Slot α) = true := by
      have none_dropped := List.countP_eq_zero.mp (h.dropped.symm.trans all) _ mem
      simpa using none_dropped
    have found := h.storedEntry_own t.outage mem writes
    rwa [h.during, readable, if_pos rfl] at found
  others key _ apart := by
    have same := h.storedEntry_others (α := α) t.outage fun slot mem _ =>
      apart slot.seq (Nat.zero_add entries.length ▸ seq_lt_of_mem_numbered mem)
    rwa [h.during, FaultyTable.during_outage] at same

end Writing

section Loading

variable (sound : Sound t.table) (listing : t.outage.listing = false)

include sound listing

theorem Holds.load (h : Holds name t entries) (small : entries.length ≤ 1 <<< 64) :
    empty.load name t = (entries.length, ofEntries entries) := by
  have loaded := load_of_numbered sound listing small (fun _ => true)
    (fun slot mem => h.own slot.seq slot.entry (mem_numbered.mp mem)) fun key begins stored => by
      obtain ⟨i, lt, same⟩ := h.only key begins stored
      exact ⟨⟨i, entries[i]⟩, mem_numbered.mpr (List.getElem?_eq_getElem lt), same⟩
  have all : ((numbered 0 entries).filter fun _ => true).map Slot.entry = entries := by
    rw [List.filter_eq_self.mpr fun _ _ => rfl, map_entry_numbered]
  rw [loaded, all]

theorem Rewritten.sublist_load {t₀ : FaultyTable τ} (h : Rewritten name entries t₀ t)
    (small : entries.length ≤ 1 <<< 64) : entries.Sublist (empty.load name t).2.entries :=
  sublist_entries_load sound listing small fun slot mem =>
    h.own slot.seq slot.entry (mem_numbered.mp mem)

theorem Rewritten.mem_load {t₀ : FaultyTable τ} (h : Rewritten name entries t₀ t)
    (sound₀ : Sound t₀.table) (listing₀ : t₀.outage.listing = false) {e : Entry α}
    (mem : e ∈ (empty.load name t).2.entries) :
    e ∈ entries ∨ e ∈ (empty.load name t₀).2.entries := by
  obtain ⟨key, begins, stored⟩ := (mem_entries_load sound listing).mp mem
  cases h.cases_key begins with
  | inl first =>
    obtain ⟨i, lt, rfl⟩ := first
    rw [h.own i entries[i] (List.getElem?_eq_getElem lt)] at stored
    cases stored
    exact Or.inl (List.getElem_mem lt)
  | inr same => exact Or.inr ((mem_entries_load sound₀ listing₀).mpr ⟨key, begins, same ▸ stored⟩)

end Loading

end Cache

end Reprise
