import Reprise.Answer.Core
import Reprise.Answer.Model
import Reprise.Cache.Basic
import Reprise.Wire.Expr

/-!
The bytes of cache entries: key, size and payload. Bytes after an entry are not looked at.
-/
set_option autoImplicit false

namespace Reprise

/-- Answers that can be kept in a table: how they are named, written and read. -/
class Payload (α : Type) where
  /-- The part of a table key that tells this kind of answer from others. -/
  kind : String
  put : Wire.Writer α
  get : Wire.Reader α
  /-- Whether all lengths in it can be written. -/
  fits : α → Bool

namespace Wire

def putPair (p : Variable × Constant) (rest : Bytes) : Bytes :=
  putVariable p.1 (putConstant p.2 rest)

def getPair : Reader (Variable × Constant) := fun bytes => do
  let (v, bytes) ← getVariable bytes
  let (c, bytes) ← getConstant bytes
  some ((v, c), bytes)

instance : Payload Model where
  kind := "sat"
  put m rest := putList putPair m.pairs rest
  get bytes := (getList getPair bytes).map fun (pairs, rest) => (.ofList pairs, rest)
  fits m := lengthFits m.size && m.pairs.all fun p => lengthFits p.1.name.utf8ByteSize

instance : Payload Core where
  kind := "unsat"
  put c rest := putList putExpr c.clauses rest
  get bytes := (getList getExpr bytes).map fun (clauses, rest) => (.ofFirsts clauses, rest)
  fits c := lengthFits c.size && c.clauses.all exprFits

end Wire

namespace Entry

variable {α : Type} [Payload α]

def put (e : Entry α) (rest : Bytes) : Bytes :=
  Wire.putLong e.key.bits (Wire.putLength e.size (Payload.put e.payload rest))

def get : Wire.Reader (Entry α) := fun bytes => do
  let (bits, bytes) ← Wire.getLong bytes
  let (size, bytes) ← Wire.getLength bytes
  let (payload, bytes) ← Payload.get bytes
  some (⟨⟨bits⟩, size, payload⟩, bytes)

def fits (e : Entry α) : Bool := Wire.lengthFits e.size && Payload.fits e.payload

def encode? (e : Entry α) : Option Bytes := if e.fits then some (e.put []) else none

def decode? (bytes : Bytes) : Option (Entry α) := (Entry.get bytes).map Prod.fst

end Entry

end Reprise
