set_option autoImplicit false

namespace Reprise

inductive UnaryOp where
  | not
  | neg
deriving DecidableEq, Inhabited

inductive BinaryOp where
  | eq
  | ne
  | lt
  | le
  | gt
  | ge
  | and
  | or
  | implies
  | add
  | sub
  | mul
  | div
  | mod
  | bitAnd
  | bitOr
  | bitXor
  | shl
  | shr
deriving DecidableEq, Inhabited

inductive Operator where
  | unary (op : UnaryOp)
  | binary (op : BinaryOp)
deriving DecidableEq, Inhabited

namespace UnaryOp

def symbol : UnaryOp → String
  | .not => "!"
  | .neg => "-"

end UnaryOp

namespace BinaryOp

def symbol : BinaryOp → String
  | .eq => "=="
  | .ne => "!="
  | .lt => "<"
  | .le => "<="
  | .gt => ">"
  | .ge => ">="
  | .and => "&&"
  | .or => "||"
  | .implies => "=>"
  | .add => "+"
  | .sub => "-"
  | .mul => "*"
  | .div => "/"
  | .mod => "%"
  | .bitAnd => "&"
  | .bitOr => "|"
  | .bitXor => "^"
  | .shl => "<<"
  | .shr => ">>"

end BinaryOp

namespace Operator

def arity : Operator → Nat
  | .unary _ => 1
  | .binary _ => 2

def symbol : Operator → String
  | .unary op => op.symbol
  | .binary op => op.symbol

/-- All operators in their fixed order: relations, connectives, arithmetic, words. -/
def all : List Operator :=
  [.binary .eq, .binary .ne, .binary .lt, .binary .le, .binary .gt, .binary .ge,
   .binary .and, .binary .or, .binary .implies, .unary .not,
   .binary .add, .binary .sub, .binary .mul, .binary .div, .binary .mod, .unary .neg,
   .binary .bitAnd, .binary .bitOr, .binary .bitXor, .binary .shl, .binary .shr]

def name : Operator → String
  | .binary .eq => "eq"
  | .binary .ne => "ne"
  | .binary .lt => "lt"
  | .binary .le => "le"
  | .binary .gt => "gt"
  | .binary .ge => "ge"
  | .binary .and => "and"
  | .binary .or => "or"
  | .binary .implies => "implies"
  | .unary .not => "not"
  | .binary .add => "add"
  | .binary .sub => "sub"
  | .binary .mul => "mul"
  | .binary .div => "div"
  | .binary .mod => "mod"
  | .unary .neg => "neg"
  | .binary .bitAnd => "bit_and"
  | .binary .bitOr => "bit_or"
  | .binary .bitXor => "bit_xor"
  | .binary .shl => "shl"
  | .binary .shr => "shr"

def index (op : Operator) : Nat := all.idxOf op

def ofIndex? (i : Nat) : Option Operator := all[i]?

def ofName? (name : String) : Option Operator := all.find? fun op => op.name == name

theorem ofIndex?_index (op : Operator) : ofIndex? op.index = some op := by
  rcases op with op | op <;> cases op <;> decide

theorem ofName?_name (op : Operator) : ofName? op.name = some op := by
  rcases op with op | op <;> cases op <;> decide

theorem index_lt (op : Operator) : op.index < 21 := by
  rcases op with op | op <;> cases op <;> decide

end Operator

end Reprise
