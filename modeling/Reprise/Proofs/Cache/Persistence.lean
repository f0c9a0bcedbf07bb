import Reprise.Cache.Persistence
import Reprise.Proofs.Cache.Entries
import Reprise.Proofs.Table.Lawful
import Reprise.Proofs.Text.Order
import Reprise.Proofs.Text.Split
import Reprise.Proofs.Wire.Entry

/-!
What a table holds once caches have been written to it, and what can be loaded from it. Keys tell the
kinds of answers apart, so that a cache only loads what was written for its kind.
-/
set_option autoImplicit false

namespace Reprise

open LawfulTable (held)

namespace Cache

/-- Names that the first colon of a key ends. -/
def PlainName (name : String) : Prop := ':' ∉ name.toList

section Keys

variable {α β : Type} [Payload α] [Payload β]

theorem run_of_plain {text : List Char} (h : ':' ∉ text) : ∀ c ∈ text, (c != ':') = true := by
  intro c mem
  rw [bne_iff_ne]
  rintro rfl
  exact h mem

theorem toList_keyPrefix (name : String) (rest : List Char) :
    (keyPrefix α name).toList ++ rest =
      name.toList ++ ':' :: ((Payload.kind α).toList ++ ':' :: rest) := by
  simp [keyPrefix]

theorem begins_entryKey (name : String) (n : Nat) :
    Pattern.begins (keyPrefix α name) (entryKey α name n) = true := Text.begins_append _ _

variable [LawfulPayload α] [LawfulPayload β]

theorem parts_eq_of_begins {name name' key : String} (plain : PlainName name)
    (plain' : PlainName name') (h : Pattern.begins (keyPrefix α name) key = true)
    (h' : Pattern.begins (keyPrefix β name') key = true) :
    name = name' ∧ Payload.kind α = Payload.kind β := by
  obtain ⟨rest, key_eq⟩ := List.isPrefixOf_iff_prefix.mp h
  obtain ⟨rest', key_eq'⟩ := List.isPrefixOf_iff_prefix.mp h'
  have same := key_eq.trans key_eq'.symm
  rw [toList_keyPrefix, toList_keyPrefix] at same
  have colon : ∀ text, Text.Stops (fun c => c != ':') (':' :: text) := fun text => by simp
  have names := Text.run_inj (run_of_plain plain) (run_of_plain plain') (colon _) (colon _) same
  have kinds := Text.run_inj (run_of_plain LawfulPayload.plain_kind)
    (run_of_plain LawfulPayload.plain_kind) (colon _) (colon _) (List.cons.inj names.2).2
  exact ⟨String.toList_inj.mp names.1, String.toList_inj.mp kinds.1⟩

theorem kind_eq_of_begins {name name' : String} {n : Nat} (plain : PlainName name)
    (plain' : PlainName name') (h : Pattern.begins (keyPrefix α name) (entryKey β name' n) = true) :
    Payload.kind α = Payload.kind β :=
  (parts_eq_of_begins plain plain' h (begins_entryKey name' n)).2

end Keys

variable {α τ : Type} [Payload α] [Table τ] [LawfulTable τ]

/-- The bytes of a good entry under a key of its kind. -/
def WrittenAs (good : Entry α → Prop) (key : String) (bytes : Bytes) : Prop :=
  ∃ name n e, PlainName name ∧ key = entryKey α name n ∧ good e ∧ e.encode? = some bytes

theorem held_flushFrom {written : String → Bytes → Prop} {name : String} {n : Nat}
    {entries : List (Entry α)} {t : τ}
    (old : ∀ key bytes, held t key = some bytes → written key bytes)
    (new : ∀ m, ∀ e ∈ entries, ∀ bytes, e.encode? = some bytes → written (entryKey α name m) bytes) :
    ∀ key bytes, held (flushFrom name n entries t).2 key = some bytes → written key bytes := by
  induction entries generalizing n t with
  | nil => exact old
  | cons e rest ih =>
    have later : ∀ m, ∀ e ∈ rest, ∀ bytes, e.encode? = some bytes → written (entryKey α name m) bytes :=
      fun m e mem => new m e (List.mem_cons_of_mem _ mem)
    rw [flushFrom]
    split
    · exact ih old later
    · rename_i bytes encoded
      split
      · exact ih old later
      · rename_i t' done
        refine ih (fun key bytes' h => ?_) later
        rw [LawfulTable.held_put done key] at h
        split at h
        · rename_i same
          cases h
          exact same ▸ new n e List.mem_cons_self bytes encoded
        · exact old key bytes' h

theorem held_flush {written : String → Bytes → Prop} {good : Entry α → Prop} {c : Cache α}
    {name : String} {t : τ} (plain : PlainName name) (entries : ∀ e ∈ c.entries, good e)
    (old : ∀ key bytes, held t key = some bytes → written key bytes)
    (as_written : ∀ key bytes, WrittenAs good key bytes → written key bytes) :
    ∀ key bytes, held (c.flush name t).2 key = some bytes → written key bytes :=
  held_flushFrom old fun m e mem bytes encoded =>
    as_written _ bytes ⟨name, m, e, plain, rfl, entries e mem, encoded⟩

theorem mem_load {c : Cache α} {name : String} {t : τ} {e : Entry α}
    (h : e ∈ (c.load name t).2.entries) : e ∈ c.entries ∨ ∃ key bytes,
      Pattern.begins (keyPrefix α name) key = true ∧ held t key = some bytes ∧
        Entry.decode? bytes = some e := by
  rw [load] at h
  split at h
  · exact Or.inl h
  · rename_i keys listed
    refine ((mem_foldl_insert _ c).mp h).imp id fun found => ?_
    obtain ⟨key, mem, stored⟩ := List.mem_filterMap.mp found
    have accepted := LawfulTable.accepts_of_listed listed key (List.mem_mergeSort.mp mem)
    rw [Pattern.accepts_star] at accepted
    rw [storedEntry] at stored
    split at stored
    · rename_i bytes read
      exact ⟨key, bytes, accepted, LawfulTable.held_of_get? read, stored⟩
    · cases stored
    · cases stored

variable {β : Type} [Payload β] [LawfulPayload α] [LawfulPayload β]

theorem good_of_mem_load {good : Entry α → Prop} {other : Entry β → Prop} {c : Cache α}
    {name : String} {t : τ} (plain : PlainName name) (apart : Payload.kind α ≠ Payload.kind β)
    (entries : ∀ e ∈ c.entries, good e)
    (table : ∀ key bytes, held t key = some bytes → WrittenAs good key bytes ∨ WrittenAs other key bytes) :
    ∀ e ∈ (c.load name t).2.entries, good e := by
  intro e mem
  cases mem_load mem with
  | inl known => exact entries e known
  | inr loaded =>
    obtain ⟨key, bytes, begins, held_bytes, decoded⟩ := loaded
    cases table key bytes held_bytes with
    | inl own =>
      obtain ⟨_, _, written, -, -, is_good, encoded⟩ := own
      rw [Entry.decode?_encode? encoded] at decoded
      cases decoded
      exact is_good
    | inr foreign =>
      obtain ⟨name', n, _, plain', rfl, -, -⟩ := foreign
      exact absurd (kind_eq_of_begins plain plain' begins) apart

end Cache

end Reprise
