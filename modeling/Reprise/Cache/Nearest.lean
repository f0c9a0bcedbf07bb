import Reprise.Cache.Basic

/-!
The entries of a cache nearest to a key. The search starts between the buckets up to the key and
those above it and takes the nearer end of the two each time; at equal distance both buckets count
as one, oldest entries first.
-/
set_option autoImplicit false

namespace Reprise

variable {α : Type}

/-- The slots in groups of growing distance from the key: `below` leads away downwards, `above`
upwards. -/
def outward (key : Binary64) : List (Bucket α) → List (Bucket α) → List (List (Slot α))
  | [], above => above.map Bucket.slots
  | below, [] => below.map Bucket.slots
  | b :: below, a :: above =>
    match compare (key.sub b.key) (a.key.sub key) with
    | .lt => b.slots :: outward key below (a :: above)
    | .gt => a.slots :: outward key (b :: below) above
    | .eq => b.slots.merge a.slots (fun x y => x.seq ≤ y.seq) :: outward key below above
termination_by below above => below.length + above.length

namespace Cache

def fits (limit : Option Nat) (size : Nat) : Bool :=
  match limit with
  | none => true
  | some limit => size ≤ limit

/-- At most `k` slots nearest to the key, those beyond the size limit passed over. -/
def nearestSlots (c : Cache α) (key : Binary64) (k : Nat) (limit : Option Nat) : List (Slot α) :=
  let below := (c.buckets.takeWhile fun b => b.key.place ≤ key.place).reverse
  let above := c.buckets.dropWhile fun b => b.key.place ≤ key.place
  ((outward key below above).flatten.filter fun slot => fits limit slot.entry.size).take k

def nearest (c : Cache α) (key : Binary64) (k : Nat) (limit : Option Nat) : List (Entry α) :=
  (c.nearestSlots key k limit).map Slot.entry

/-- As many entries as room can be reserved for: eight bytes each, and no more than 2 ^ 63 - 1 bytes. -/
def reservable : Nat := (1 <<< 63 - 1) / 8

/-- Room for all `k` slots is reserved before the search, however few there are. Where it cannot be, the
program ends and there is no answer. -/
def nearestSlots? (c : Cache α) (key : Binary64) (k : Nat) (limit : Option Nat) :
    Option (List (Slot α)) :=
  if k ≤ reservable then some (c.nearestSlots key k limit) else none

def nearest? (c : Cache α) (key : Binary64) (k : Nat) (limit : Option Nat) : Option (List (Entry α)) :=
  (c.nearestSlots? key k limit).map (List.map Slot.entry)

end Cache

end Reprise
