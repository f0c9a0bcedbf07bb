/-!
Values as bytes: fixed-width numbers with the low byte first, and lengths of 64 bits before texts and
lists. A writer puts a value in front of the bytes that follow it; a reader takes a value off the
front and gives back the rest.
-/
set_option autoImplicit false

namespace Reprise

abbrev Bytes : Type := List UInt8

namespace Wire

abbrev Writer (α : Type) : Type := α → Bytes → Bytes

abbrev Reader (α : Type) : Type := Bytes → Option (α × Bytes)

/-- The `count` low bytes of a number, the lowest first. -/
def putNat : Nat → Writer Nat
  | 0, _, rest => rest
  | count + 1, n, rest => UInt8.ofNat n :: putNat count (n / 256) rest

def getNat : Nat → Reader Nat
  | 0, bytes => some (0, bytes)
  | _ + 1, [] => none
  | count + 1, b :: bytes =>
    match getNat count bytes with
    | none => none
    | some (high, rest) => some (b.toNat + 256 * high, rest)

def putTag (n : Nat) : Bytes → Bytes := putNat 4 n

def getTag : Reader Nat := getNat 4

/-- Lengths are written in 64 bits; a longer one cannot be written. -/
def lengthFits (n : Nat) : Bool := n < 1 <<< 64

def putLength (n : Nat) : Bytes → Bytes := putNat 8 n

def getLength : Reader Nat := getNat 8

def putWord (w : UInt32) : Bytes → Bytes := putNat 4 w.toNat

def getWord : Reader UInt32 := fun bytes =>
  (getNat 4 bytes).map fun (n, rest) => (UInt32.ofNat n, rest)

def putLong (w : UInt64) : Bytes → Bytes := putNat 8 w.toNat

def getLong : Reader UInt64 := fun bytes =>
  (getNat 8 bytes).map fun (n, rest) => (UInt64.ofNat n, rest)

def putInt (n : Int64) : Bytes → Bytes := putLong n.toUInt64

def getInt : Reader Int64 := fun bytes => (getLong bytes).map fun (w, rest) => (w.toInt64, rest)

def getBytes : Nat → Reader Bytes
  | 0, bytes => some ([], bytes)
  | _ + 1, [] => none
  | n + 1, b :: bytes =>
    match getBytes n bytes with
    | none => none
    | some (taken, rest) => some (b :: taken, rest)

def putText (s : String) (rest : Bytes) : Bytes :=
  putLength s.utf8ByteSize (s.toUTF8.toList ++ rest)

def getText : Reader String := fun bytes =>
  match getLength bytes with
  | none => none
  | some (n, bytes) =>
    match getBytes n bytes with
    | none => none
    | some (taken, rest) => (String.fromUTF8? ⟨taken.toArray⟩).map (·, rest)

variable {α : Type}

def putItems (put : Writer α) (items : List α) (rest : Bytes) : Bytes :=
  items.foldr put rest

def putList (put : Writer α) (items : List α) (rest : Bytes) : Bytes :=
  putLength items.length (putItems put items rest)

def getItems (get : Reader α) : Nat → Reader (List α)
  | 0, bytes => some ([], bytes)
  | n + 1, bytes =>
    match get bytes with
    | none => none
    | some (item, bytes) =>
      match getItems get n bytes with
      | none => none
      | some (items, rest) => some (item :: items, rest)

def getList (get : Reader α) : Reader (List α) := fun bytes =>
  match getLength bytes with
  | none => none
  | some (n, bytes) => getItems get n bytes

end Wire

end Reprise
