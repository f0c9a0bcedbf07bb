import Reprise.Table.Basic
import Reprise.Wire.Entry

/-!
Keeping a cache in a table. Entries are written in the order of insertion under numbered keys; failed
writes are counted and otherwise ignored. Loading takes what it can read: a key set that cannot be
listed loads nothing, entries that cannot be read or decoded are passed over.
-/
set_option autoImplicit false

namespace Reprise

structure FlushReport where
  written : Nat
  dropped : Nat
deriving DecidableEq, Inhabited

def FlushReport.add (a b : FlushReport) : FlushReport :=
  ⟨a.written + b.written, a.dropped + b.dropped⟩

namespace Cache

variable {α τ : Type} [Payload α] [Table τ]

def keyPrefix (α : Type) [Payload α] (name : String) : String :=
  name ++ ":" ++ Payload.kind α ++ ":"

/-- Twenty digits, so that the keys sort like the numbers. -/
def numeral (n : Nat) : String :=
  let digits := toString n
  String.ofList (List.replicate (20 - digits.length) '0') ++ digits

def entryKey (α : Type) [Payload α] (name : String) (n : Nat) : String :=
  keyPrefix α name ++ numeral n

def flushFrom (name : String) : Nat → List (Entry α) → τ → FlushReport × τ
  | _, [], table => (⟨0, 0⟩, table)
  | n, e :: rest, table =>
    match e.encode? with
    | none =>
      let (report, table) := flushFrom name (n + 1) rest table
      (report.add ⟨0, 1⟩, table)
    | some bytes =>
      match Table.put table (entryKey α name n) bytes with
      | .error _ =>
        let (report, table) := flushFrom name (n + 1) rest table
        (report.add ⟨0, 1⟩, table)
      | .ok table =>
        let (report, table) := flushFrom name (n + 1) rest table
        (report.add ⟨1, 0⟩, table)

/-- Numbers start from zero each time, so that a loaded cache is written over its own keys. -/
def flush (c : Cache α) (name : String) (table : τ) : FlushReport × τ :=
  flushFrom name 0 c.entries table

def storedEntry (α : Type) [Payload α] (table : τ) (key : String) : Option (Entry α) :=
  match Table.get? table key with
  | .ok (some bytes) => Entry.decode? bytes
  | .ok none | .error _ => none

/-- Adds every readable entry in the order of the keys and tells how many there were. -/
def load (c : Cache α) (name : String) (table : τ) : Nat × Cache α :=
  match Table.keysMatching table (keyPrefix α name ++ "*") with
  | .error _ => (0, c)
  | .ok keys =>
    let sorted := keys.mergeSort fun a b => (compare a b).isLE
    let found := sorted.filterMap (storedEntry α table)
    (found.length, found.foldl insert c)

end Cache

end Reprise
