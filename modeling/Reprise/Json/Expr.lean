import Reprise.Expr.Basic
import Reprise.Json.Decode
import Reprise.Json.Print
import Reprise.Json.Read

/-!
The JSON form of variables, constants and expressions.
-/
set_option autoImplicit false

namespace Reprise

namespace VarSort

def toJson : VarSort → Json
  | .int => .text "int"
  | .real => .text "real"
  | .bitVec width => .object [("bit_vec", .object [("width", .nat width.toNat)])]

def decodeWidth (source : Json.Source) (j : Json) : Except DecodeFault VarSort := do
  let width ← j.asCarried source [.of "width" Json.asWord fun _ w => some w] 1 none
  return .bitVec (← Json.require width)

def decode (source : Json.Source) : Json.Decoder VarSort :=
  Json.asChoice source
    (fun name => if name = "int" then some .int else if name = "real" then some .real else none)
    (fun name => if name = "bit_vec" then some (decodeWidth source) else none)

end VarSort

namespace Variable

def toJson (v : Variable) : Json :=
  .object [("name", .text v.name), ("sort", v.sort.toJson), ("lower", .int64 v.lower),
    ("upper", .int64 v.upper)]

structure Draft where
  name : Option String
  sort : Option VarSort
  lower : Option Int64
  upper : Option Int64

def fields (source : Json.Source) : List (Json.Field Draft) :=
  [.of "name" Json.asText fun d s => { d with name := some s },
   .of "sort" (VarSort.decode source) fun d s => { d with sort := some s },
   .of "lower" Json.asInt64 fun d n => { d with lower := some n },
   .of "upper" Json.asInt64 fun d n => { d with upper := some n }]

def decode (source : Json.Source) (j : Json) : Except DecodeFault Variable := do
  let d ← j.asRecord (fields source) 4 ⟨none, none, none, none⟩
  return ⟨← Json.require d.name, ← Json.require d.sort, ← Json.require d.lower,
    ← Json.require d.upper⟩

end Variable

namespace Constant

def toJson : Constant → Json
  | .int value => .object [("int", .int64 value)]
  | .real value => .object [("real", .real value)]
  | .bitVec value width =>
    .object [("bit_vec", .object [("value", .int64 value), ("width", .nat width.toNat)])]

def wordFields : List (Json.Field (Option Int64 × Option UInt32)) :=
  [.of "value" Json.asInt64 fun d n => (some n, d.2), .of "width" Json.asWord fun d w => (d.1, some w)]

def decodeWord (source : Json.Source) (j : Json) : Except DecodeFault Constant := do
  let d ← j.asCarried source wordFields 2 (none, none)
  return .bitVec (← Json.require d.1) (← Json.require d.2)

def decode (source : Json.Source) : Json.Decoder Constant :=
  Json.asChoice source (fun _ => none) fun name =>
    if name = "int" then some fun j => j.asInt64.map .int
    else if name = "real" then some fun j => j.asReal.map .real
    else if name = "bit_vec" then some (decodeWord source)
    else none

end Constant

namespace Operator

def toJson (op : Operator) : Json := .text op.name

def decode (source : Json.Source) : Json.Decoder Operator :=
  Json.asChoice source ofName? fun _ => none

end Operator

namespace Expr

def toJson : Expr → Json
  | .var v => .object [("var", v.toJson)]
  | .const c => .object [("const", c.toJson)]
  | .unary op e =>
    .object [("op", .object [("operator", (Operator.unary op).toJson), ("operands", .array [e.toJson])])]
  | .binary op l r =>
    .object [("op", .object
      [("operator", (Operator.binary op).toJson), ("operands", .array [l.toJson, r.toJson])])]

def operationFields (source : Json.Source) (operand : Json.Decoder Expr) :
    List (Json.Field (Option Operator × Option (List Expr))) :=
  [.of "operator" (Operator.decode source) fun d op => (some op, d.2),
   .of "operands" (Json.asList operand) fun d es => (d.1, some es)]

def decodeOperation (source : Json.Source) (operand : Json.Decoder Expr) (j : Json) :
    Except DecodeFault (Except ExprFault Expr) := do
  let d ← j.asCarried source (operationFields source operand) 2 (none, none)
  return operation (← Json.require d.1) (← Json.require d.2)

def decodeWithin (source : Json.Source) : Nat → Json.Decoder Expr
  | 0, _ => .error .malformed
  | depth + 1, j => do
    let built ← j.asChoice source (fun _ => none) fun name =>
      if name = "var" then some fun j => (Variable.decode source j).map fun v => .ok (.var v)
      else if name = "const" then some fun j => (Constant.decode source j).map fun c => .ok (.const c)
      else if name = "op" then some (decodeOperation source (decodeWithin source depth))
      else none
    match built with
    | .ok e => .ok e
    | .error f => .error (.refused f)

/-- Every level of an expression lies deeper in the document. -/
def decode (source : Json.Source) : Json.Decoder Expr := fun j =>
  decodeWithin source (j.depth + 1) j

def parse : String → Except DecodeFault Expr := Json.decodeText (decode .text)

end Expr

end Reprise
