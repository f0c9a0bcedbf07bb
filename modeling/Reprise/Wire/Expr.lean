import Reprise.Expr.Basic
import Reprise.Wire.Basic

/-!
The bytes of variables, constants and expressions: a tag for the kind, then the parts in order.
-/
set_option autoImplicit false

namespace Reprise

namespace Wire

def putSort : Writer VarSort
  | .int, rest => putTag 0 rest
  | .real, rest => putTag 1 rest
  | .bitVec width, rest => putTag 2 (putWord width rest)

def getSort : Reader VarSort := fun bytes =>
  match getTag bytes with
  | some (0, rest) => some (.int, rest)
  | some (1, rest) => some (.real, rest)
  | some (2, rest) => (getWord rest).map fun (width, rest) => (.bitVec width, rest)
  | _ => none

def putVariable (v : Variable) (rest : Bytes) : Bytes :=
  putText v.name (putSort v.sort (putInt v.lower (putInt v.upper rest)))

def getVariable : Reader Variable := fun bytes => do
  let (name, bytes) ← getText bytes
  let (sort, bytes) ← getSort bytes
  let (lower, bytes) ← getInt bytes
  let (upper, bytes) ← getInt bytes
  some (⟨name, sort, lower, upper⟩, bytes)

def putConstant : Writer Constant
  | .int value, rest => putTag 0 (putInt value rest)
  | .real value, rest => putTag 1 (putLong value.bits rest)
  | .bitVec value width, rest => putTag 2 (putInt value (putWord width rest))

def getConstant : Reader Constant := fun bytes =>
  match getTag bytes with
  | some (0, rest) => (getInt rest).map fun (value, rest) => (.int value, rest)
  | some (1, rest) => (getLong rest).map fun (bits, rest) => (.real ⟨bits⟩, rest)
  | some (2, rest) => do
    let (value, rest) ← getInt rest
    let (width, rest) ← getWord rest
    some (.bitVec value width, rest)
  | _ => none

/-- Operations carry the number of their operands although the operator fixes it. -/
def putExpr : Writer Expr
  | .var v, rest => putTag 0 (putVariable v rest)
  | .const c, rest => putTag 1 (putConstant c rest)
  | .unary op e, rest =>
    putTag 2 (putTag (Operator.unary op).index (putLength 1 (putExpr e rest)))
  | .binary op l r, rest =>
    putTag 2 (putTag (Operator.binary op).index (putLength 2 (putExpr l (putExpr r rest))))

def getExprWithin : Nat → Reader Expr
  | 0, _ => none
  | depth + 1, bytes =>
    match getTag bytes with
    | some (0, rest) => (getVariable rest).map fun (v, rest) => (.var v, rest)
    | some (1, rest) => (getConstant rest).map fun (c, rest) => (.const c, rest)
    | some (2, rest) => do
      let (tag, rest) ← getTag rest
      let op ← Operator.ofIndex? tag
      let (count, rest) ← getLength rest
      match op, count with
      | .unary op, 1 =>
        let (e, rest) ← getExprWithin depth rest
        some (.unary op e, rest)
      | .binary op, 2 =>
        let (l, rest) ← getExprWithin depth rest
        let (r, rest) ← getExprWithin depth rest
        some (.binary op l r, rest)
      | _, _ => none
    | _ => none

/-- Every level takes at least one byte. -/
def getExpr : Reader Expr := fun bytes => getExprWithin bytes.length bytes

/-- Whether all names are short enough to be written. -/
def exprFits : Expr → Bool
  | .var v => lengthFits v.name.utf8ByteSize
  | .const _ => true
  | .unary _ e => exprFits e
  | .binary _ l r => exprFits l && exprFits r

end Wire

end Reprise
