import Reprise.Binary64.Basic

/-!
Caches of solver answers. An entry lies in the bucket of its key, the distance of the constraint it
answers; buckets are in key order and every entry carries the number of its insertion.
-/
set_option autoImplicit false

namespace Reprise

structure Entry (α : Type) where
  /-- The distance of the constraint. -/
  key : Binary64
  /-- The number of its distinct variables. -/
  size : Nat
  payload : α
deriving DecidableEq

structure Slot (α : Type) where
  seq : Nat
  entry : Entry α
deriving DecidableEq

structure Bucket (α : Type) where
  key : Binary64
  /-- Oldest first. -/
  slots : List (Slot α)
deriving DecidableEq

structure Cache (α : Type) where
  buckets : List (Bucket α)
  nextSeq : Nat
  size : Nat
deriving DecidableEq

variable {α : Type}

def insertSlot (key : Binary64) (slot : Slot α) : List (Bucket α) → List (Bucket α)
  | [] => [⟨key, [slot]⟩]
  | b :: rest =>
    match compare key b.key with
    | .lt => ⟨key, [slot]⟩ :: b :: rest
    | .eq => ⟨b.key, b.slots ++ [slot]⟩ :: rest
    | .gt => b :: insertSlot key slot rest

namespace Cache

def empty : Cache α := ⟨[], 0, 0⟩

instance : Inhabited (Cache α) := ⟨empty⟩

def insert (c : Cache α) (entry : Entry α) : Cache α :=
  ⟨insertSlot entry.key ⟨c.nextSeq, entry⟩ c.buckets, c.nextSeq + 1, c.size + 1⟩

def isEmpty (c : Cache α) : Bool := c.size == 0

def slots (c : Cache α) : List (Slot α) :=
  (c.buckets.flatMap Bucket.slots).mergeSort fun a b => a.seq ≤ b.seq

def entries (c : Cache α) : List (Entry α) := c.slots.map Slot.entry

end Cache

end Reprise
