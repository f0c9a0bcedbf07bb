import Reprise.Table.Basic

set_option autoImplicit false

namespace Reprise

/-- A table for the life of the program, its keys in no particular order. -/
structure MemoryTable where
  entries : List (String × Bytes)
deriving Inhabited

namespace MemoryTable

def empty : MemoryTable := ⟨[]⟩

def size (t : MemoryTable) : Nat := t.entries.length

def isEmpty (t : MemoryTable) : Bool := t.entries.isEmpty

def get? (t : MemoryTable) (key : String) : Option Bytes := t.entries.lookup key

def replaceIn (key : String) (value : Bytes) : List (String × Bytes) → List (String × Bytes)
  | [] => [(key, value)]
  | (k, v) :: rest => if k = key then (k, value) :: rest else (k, v) :: replaceIn key value rest

def put (t : MemoryTable) (key : String) (value : Bytes) : MemoryTable :=
  ⟨replaceIn key value t.entries⟩

theorem lookup_replaceIn_self (key : String) (value : Bytes) (entries : List (String × Bytes)) :
    (replaceIn key value entries).lookup key = some value := by
  induction entries with
  | nil => simp [replaceIn]
  | cons head rest ih =>
    rw [replaceIn]
    split
    · rename_i same
      simp [same]
    · rename_i apart
      rw [List.lookup_cons, show (key == head.1) = false from beq_false_of_ne (Ne.symm apart)]
      exact ih

theorem lookup_replaceIn_of_ne {key other : String} (apart : other ≠ key) (value : Bytes)
    (entries : List (String × Bytes)) :
    (replaceIn key value entries).lookup other = entries.lookup other := by
  induction entries with
  | nil => simp [replaceIn, List.lookup_cons, beq_false_of_ne apart]
  | cons head rest ih =>
    obtain ⟨k, v⟩ := head
    rw [replaceIn]
    split
    · rename_i same
      simp only [List.lookup_cons, same, beq_false_of_ne apart]
    · rw [List.lookup_cons, List.lookup_cons, ih]

@[simp] theorem get?_put_self (t : MemoryTable) (key : String) (value : Bytes) :
    (t.put key value).get? key = some value := lookup_replaceIn_self key value t.entries

theorem get?_put_of_ne (t : MemoryTable) {key other : String} (apart : other ≠ key) (value : Bytes) :
    (t.put key value).get? other = t.get? other := lookup_replaceIn_of_ne apart value t.entries

def keysMatching (t : MemoryTable) (pattern : String) : List String :=
  (t.entries.map Prod.fst).filter (Pattern.accepts pattern)

instance : Table MemoryTable where
  get? t key := .ok (t.get? key)
  put t key value := .ok (t.put key value)
  keysMatching t pattern := .ok (t.keysMatching pattern)

end MemoryTable

end Reprise
