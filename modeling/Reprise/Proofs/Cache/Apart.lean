import Mathlib.Data.List.Basic
import Reprise.Proofs.Cache.Restored

/-!
Caches over one table that keep apart. What a cache writes stands under its name and its kind, and
what it loads depends on what stands there alone: names end at the first colon of a key, so that no
key belongs to two names, even if one name begins with the other.
-/
set_option autoImplicit false

namespace Reprise

open LawfulTable (held)
open ReliableTable (Sound)

def UnderName (name key : String) : Prop := Pattern.begins (name ++ ":") key = true

namespace Cache

section Keys

variable {α : Type} [Payload α] {name name' key : String}

theorem underName_of_begins (h : Pattern.begins (keyPrefix α name) key = true) : UnderName name key := by
  rw [UnderName, Text.begins_iff]
  have behind : (name ++ ":").toList <+: (keyPrefix α name).toList := by
    simp [keyPrefix]
  exact behind.trans (Text.begins_iff.mp h)

theorem underName_entryKey (name : String) (n : Nat) : UnderName name (entryKey α name n) :=
  underName_of_begins (begins_entryKey name n)

theorem name_eq_of_underName (plain : PlainName name) (plain' : PlainName name')
    (h : UnderName name key) (h' : UnderName name' key) : name = name' := by
  obtain ⟨rest, key_eq⟩ := List.isPrefixOf_iff_prefix.mp h
  obtain ⟨rest', key_eq'⟩ := List.isPrefixOf_iff_prefix.mp h'
  have same := key_eq.trans key_eq'.symm
  simp only [String.toList_append, List.append_assoc] at same
  have colon : ∀ text, Text.Stops (fun c => c != ':') (":".toList ++ text) := fun text => by simp
  exact String.toList_inj.mp
    (Text.run_inj (run_of_plain plain) (run_of_plain plain') (colon _) (colon _) same).1

end Keys

end Cache

section Agreement

variable {τ : Type} [Table τ] [LawfulTable τ] [ReliableTable τ] {own : String → Prop}
  {t t' : FaultyTable τ}

/-- The tables cannot be told apart by their own keys: they hold the same under them, and what fails
there is the same. -/
structure AgreeOn (own : String → Prop) (t t' : FaultyTable τ) : Prop where
  sound : Sound t.table
  sound' : Sound t'.table
  listing : t.outage.listing = t'.outage.listing
  held : ∀ key, own key → held t key = held t' key
  readable : ∀ key, own key → t.outage.readable key = t'.outage.readable key
  writes : ∀ key, own key → t.outage.writes key = t'.outage.writes key

namespace AgreeOn

theorem refl (sound : Sound t.table) : AgreeOn own t t :=
  ⟨sound, sound, rfl, fun _ _ => rfl, fun _ _ => rfl, fun _ _ => rfl⟩

variable {α : Type} [Payload α] {name : String}

theorem storedEntry_eq (h : AgreeOn own t t') {key : String} (mem : own key) :
    Cache.storedEntry α t key = Cache.storedEntry α t' key := by
  rw [Cache.storedEntry_eq, Cache.storedEntry_eq, h.held key mem, h.readable key mem]

theorem load_eq (h : AgreeOn own t t')
    (within : ∀ key, Pattern.begins (Cache.keyPrefix α name) key = true → own key) (c : Cache α) :
    c.load name t = c.load name t' := by
  obtain ⟨refused, failed⟩ | ⟨listed, keys, found, distinct, complete⟩ :=
    FaultyTable.keysMatching_eq h.sound (Cache.keyPrefix α name ++ "*")
  all_goals obtain ⟨refused', failed'⟩ | ⟨listed', keys', found', distinct', complete'⟩ :=
    FaultyTable.keysMatching_eq h.sound' (Cache.keyPrefix α name ++ "*")
  · rw [Cache.load, Cache.load, failed, failed']
  · rw [h.listing, listed'] at refused
    cases refused
  · rw [← h.listing, listed] at refused'
    cases refused'
  · have accepted : ∀ key, Pattern.accepts (Cache.keyPrefix α name ++ "*") key = true → own key :=
      fun key accepted => within key (Pattern.accepts_star ▸ accepted)
    have same_keys : ∀ key, key ∈ keys ↔ key ∈ keys' := fun key => by
      rw [complete, complete']
      exact and_congr_left fun accept => by rw [h.held key (accepted key accept)]
    -- tables may list the same keys in different orders; they are gone through in one
    have sorted : (keys.mergeSort fun a b => (compare a b).isLE) =
        keys'.mergeSort fun a b => (compare a b).isLE := by
      refine (ascending_mergeSort distinct).eq_of_mem_iff (ascending_mergeSort distinct') fun key => ?_
      rw [List.mem_mergeSort, List.mem_mergeSort, same_keys]
    have entries : (keys.mergeSort fun a b => (compare a b).isLE).filterMap (Cache.storedEntry α t) =
        (keys.mergeSort fun a b => (compare a b).isLE).filterMap (Cache.storedEntry α t') :=
      List.filterMap_congr fun key mem =>
        h.storedEntry_eq (accepted key ((complete key).mp (List.mem_mergeSort.mp mem)).2)
    rw [Cache.load, Cache.load, found, found']
    simp only [← sorted, entries]

theorem flushFrom (h : AgreeOn own t t') (within : ∀ n, own (Cache.entryKey α name n)) (n : Nat)
    (entries : List (Entry α)) :
    (Cache.flushFrom name n entries t).1 = (Cache.flushFrom name n entries t').1 ∧
      AgreeOn own (Cache.flushFrom name n entries t).2 (Cache.flushFrom name n entries t').2 := by
  induction entries generalizing n t t' with
  | nil => exact ⟨rfl, h⟩
  | cons e rest ih =>
    obtain ⟨u, sound, outage, first, done⟩ := Cache.flushFrom_cons h.sound name n e rest
    obtain ⟨u', sound', outage', first', done'⟩ := Cache.flushFrom_cons h.sound' name n e rest
    have writable : Cache.writable t.outage name ⟨n, e⟩ = Cache.writable t'.outage name ⟨n, e⟩ := by
      rw [Cache.writable, Cache.writable, h.writes _ (within n)]
    have after : AgreeOn own u u' := by
      refine ⟨sound, sound', outage ▸ outage' ▸ h.listing, fun key mem => ?_,
        outage ▸ outage' ▸ h.readable, outage ▸ outage' ▸ h.writes⟩
      rw [first, first', writable, h.held key mem]
    obtain ⟨report, agree⟩ := ih after (n + 1)
    rw [done, done', report, writable]
    exact ⟨rfl, agree⟩

theorem flushFrom_foreign (h : AgreeOn own t t') (beyond : ∀ n, ¬ own (Cache.entryKey α name n))
    (n : Nat) (entries : List (Entry α)) : AgreeOn own (Cache.flushFrom name n entries t).2 t' := by
  induction entries generalizing n t with
  | nil => exact h
  | cons e rest ih =>
    obtain ⟨u, sound, outage, first, done⟩ := Cache.flushFrom_cons h.sound name n e rest
    have after : AgreeOn own u t' := by
      refine ⟨sound, h.sound', outage ▸ h.listing, fun key mem => ?_, outage ▸ h.readable,
        outage ▸ h.writes⟩
      rw [first, if_neg fun ⟨_, same⟩ => beyond n (same ▸ mem), h.held key mem]
    rw [done]
    exact ih after (n + 1)

end AgreeOn

end Agreement

namespace Cache

variable {τ : Type} [Table τ] [LawfulTable τ] [ReliableTable τ] {α β : Type} [Payload α] [Payload β]
  {name : String}

def Elsewhere (β : Type) [Payload β] (name key : String) : Prop :=
  ¬ Pattern.begins (keyPrefix β name) key = true

/-- A cache takes no notice of the keys of another kind: what it loads and what it writes do not depend
on what is held under them or whether it can be read and written, and it writes none of them. -/
structure Disregards (α β τ : Type) [Payload α] [Payload β] [Table τ] [LawfulTable τ] [ReliableTable τ]
    (name : String) : Prop where
  load : ∀ (c : Cache α) {t t' : FaultyTable τ}, AgreeOn (Elsewhere β name) t t' →
    c.load name t = c.load name t'
  flush : ∀ (c : Cache α) {t t' : FaultyTable τ}, AgreeOn (Elsewhere β name) t t' →
    (c.flush name t).1 = (c.flush name t').1 ∧
      AgreeOn (Elsewhere β name) (c.flush name t).2 (c.flush name t').2
  unwritten : ∀ (c : Cache α) {t : FaultyTable τ}, Sound t.table →
    ∀ key, Pattern.begins (keyPrefix β name) key = true → held (c.flush name t).2 key = held t key

theorem disregards_of_kinds [LawfulPayload α] [LawfulPayload β] (plain : PlainName name)
    (apart : Payload.kind α ≠ Payload.kind β) : Disregards α β τ name := by
  have elsewhere : ∀ key, Pattern.begins (keyPrefix α name) key = true → Elsewhere β name key :=
    fun key begins begins' => apart (parts_eq_of_begins plain plain begins begins').2
  refine ⟨fun c t t' h => h.load_eq elsewhere c, fun c t t' h => ?_, fun c t sound => ?_⟩
  · exact h.flushFrom (fun n => elsewhere _ (begins_entryKey name n)) 0 c.entries
  · have before : AgreeOn (fun key => Pattern.begins (keyPrefix β name) key = true) t t := .refl sound
    exact (before.flushFrom_foreign (fun n => elsewhere _ (begins_entryKey name n)) 0 c.entries).held

end Cache

end Reprise
