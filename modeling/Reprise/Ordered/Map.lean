/-!
Finite maps and sets held as lists in strictly increasing key order, so that two maps with the same
entries are the same value and every listing comes out sorted.
-/
set_option autoImplicit false

namespace Reprise

variable {κ α : Type} [Ord κ]

/-- Puts an entry at its place; an entry with the same key gives way. -/
def insertEntry (k : κ) (v : α) : List (κ × α) → List (κ × α)
  | [] => [(k, v)]
  | (k', v') :: rest =>
    match compare k k' with
    | .lt => (k, v) :: (k', v') :: rest
    | .eq => (k, v) :: rest
    | .gt => (k', v') :: insertEntry k v rest

def lookupEntry (k : κ) : List (κ × α) → Option α
  | [] => none
  | (k', v') :: rest =>
    match compare k k' with
    | .lt => none
    | .eq => some v'
    | .gt => lookupEntry k rest

def Increasing (entries : List (κ × α)) : Prop :=
  entries.Pairwise fun a b => compare a.1 b.1 = .lt

theorem mem_insertEntry {k : κ} {v : α} {entries : List (κ × α)} {e : κ × α}
    (h : e ∈ insertEntry k v entries) : e = (k, v) ∨ e ∈ entries := by
  induction entries with
  | nil => simpa [insertEntry] using h
  | cons head rest ih =>
    obtain ⟨k', v'⟩ := head
    rw [insertEntry] at h
    split at h
    · simpa using h
    · rcases List.mem_cons.mp h with rfl | h
      · exact Or.inl rfl
      · exact Or.inr (List.mem_cons_of_mem _ h)
    · rcases List.mem_cons.mp h with rfl | h
      · exact Or.inr List.mem_cons_self
      · rcases ih h with rfl | h
        · exact Or.inl rfl
        · exact Or.inr (List.mem_cons_of_mem _ h)

theorem increasing_insertEntry [Std.TransOrd κ] [Std.LawfulEqOrd κ] (k : κ) (v : α)
    {entries : List (κ × α)} (h : Increasing entries) : Increasing (insertEntry k v entries) := by
  induction entries with
  | nil => simp [insertEntry, Increasing]
  | cons head rest ih =>
    obtain ⟨k', v'⟩ := head
    have head_lt := (List.pairwise_cons.mp h).1
    have rest_inc := (List.pairwise_cons.mp h).2
    rw [insertEntry]
    split
    · rename_i lt
      refine List.pairwise_cons.mpr ⟨fun e he => ?_, h⟩
      rcases List.mem_cons.mp he with rfl | he
      · exact lt
      · exact Std.TransCmp.lt_trans lt (head_lt e he)
    · rename_i eq
      have same := Std.LawfulEqOrd.eq_of_compare eq
      subst same
      exact List.pairwise_cons.mpr ⟨head_lt, rest_inc⟩
    · rename_i gt
      refine List.pairwise_cons.mpr ⟨fun e he => ?_, ih rest_inc⟩
      rcases mem_insertEntry he with rfl | he
      · exact Std.OrientedCmp.gt_iff_lt.mp gt
      · exact head_lt e he

theorem lookupEntry_insertEntry_self [Std.ReflOrd κ] (k : κ) (v : α) (entries : List (κ × α)) :
    lookupEntry k (insertEntry k v entries) = some v := by
  induction entries with
  | nil => simp [insertEntry, lookupEntry]
  | cons head rest ih =>
    rw [insertEntry]
    split
    · simp [lookupEntry]
    · simp [lookupEntry]
    · rename_i gt
      rw [lookupEntry]
      simp only [gt, ih]

theorem lookupEntry_insertEntry_of_ne [Std.TransOrd κ] [Std.LawfulEqOrd κ] {k k' : κ} (apart : k' ≠ k) (v : α)
    (entries : List (κ × α)) :
    lookupEntry k' (insertEntry k v entries) = lookupEntry k' entries := by
  have ne_eq : compare k' k ≠ .eq := fun h => apart (Std.LawfulEqOrd.eq_of_compare h)
  induction entries with
  | nil =>
    simp only [insertEntry, lookupEntry]
    split <;> simp_all
  | cons head rest ih =>
    obtain ⟨key, value⟩ := head
    rw [insertEntry]
    split
    · rename_i lt
      rw [lookupEntry]
      split
      · rename_i h
        have below : compare k' key = .lt := Std.TransCmp.lt_trans h lt
        simp [lookupEntry, below]
      · contradiction
      · rfl
    · rename_i eq
      obtain rfl := Std.LawfulEqOrd.eq_of_compare eq
      simp only [lookupEntry]
      split <;> simp_all
    · simp only [lookupEntry]
      rw [ih]

/-- A finite map; its entries are in increasing key order, each key once. -/
structure OrderedMap (κ α : Type) [Ord κ] where
  entries : List (κ × α)
  increasing : Increasing entries

namespace OrderedMap

def empty : OrderedMap κ α := ⟨[], List.Pairwise.nil⟩

instance : Inhabited (OrderedMap κ α) := ⟨empty⟩

instance [DecidableEq κ] [DecidableEq α] : DecidableEq (OrderedMap κ α) := fun a b =>
  decidable_of_iff (a.entries = b.entries) ⟨fun h => by cases a; cases b; cases h; rfl, fun h => h ▸ rfl⟩

def get? (m : OrderedMap κ α) (k : κ) : Option α := lookupEntry k m.entries

@[simp] theorem get?_empty (k : κ) : (empty : OrderedMap κ α).get? k = none := rfl

def size (m : OrderedMap κ α) : Nat := m.entries.length

def isEmpty (m : OrderedMap κ α) : Bool := m.entries.isEmpty

def keys (m : OrderedMap κ α) : List κ := m.entries.map Prod.fst

def values (m : OrderedMap κ α) : List α := m.entries.map Prod.snd

def take (m : OrderedMap κ α) (n : Nat) : OrderedMap κ α :=
  ⟨m.entries.take n, List.Pairwise.sublist (List.take_sublist n m.entries) m.increasing⟩

variable [Std.TransOrd κ] [Std.LawfulEqOrd κ]

def insert (m : OrderedMap κ α) (k : κ) (v : α) : OrderedMap κ α :=
  ⟨insertEntry k v m.entries, increasing_insertEntry k v m.increasing⟩

@[simp] theorem get?_insert_self (m : OrderedMap κ α) (k : κ) (v : α) :
    (m.insert k v).get? k = some v := lookupEntry_insertEntry_self k v m.entries

theorem get?_insert_of_ne (m : OrderedMap κ α) {k k' : κ} (apart : k' ≠ k) (v : α) :
    (m.insert k v).get? k' = m.get? k' := lookupEntry_insertEntry_of_ne apart v m.entries

/-- Of several pairs with one key the last counts. -/
def ofList (pairs : List (κ × α)) : OrderedMap κ α :=
  pairs.foldl (fun m p => m.insert p.1 p.2) empty

end OrderedMap

abbrev OrderedSet (κ : Type) [Ord κ] : Type := OrderedMap κ Unit

namespace OrderedSet

variable [Std.TransOrd κ] [Std.LawfulEqOrd κ]

def toList (s : OrderedSet κ) : List κ := OrderedMap.keys s

def contains (s : OrderedSet κ) (k : κ) : Bool := (OrderedMap.get? s k).isSome

def insert (s : OrderedSet κ) (k : κ) : OrderedSet κ := OrderedMap.insert s k ()

def isSubsetOf (s t : OrderedSet κ) : Bool := s.toList.all t.contains

end OrderedSet

end Reprise
