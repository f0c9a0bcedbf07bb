import Reprise.Expr.Constant
import Reprise.Expr.Variable

/-!
Models: assignments of values to variables, in variable order.
-/
set_option autoImplicit false

namespace Reprise

structure Model where
  assignments : OrderedMap Variable Constant
deriving DecidableEq, Inhabited

namespace Model

def empty : Model := ⟨OrderedMap.empty⟩

def pairs (m : Model) : List (Variable × Constant) := m.assignments.entries

def ofList (pairs : List (Variable × Constant)) : Model := ⟨OrderedMap.ofList pairs⟩

def uniform (vars : List Variable) (value : Constant) : Model :=
  ofList (vars.map (·, value))

def get? (m : Model) (v : Variable) : Option Constant := m.assignments.get? v

def insert (m : Model) (v : Variable) (value : Constant) : Model := ⟨m.assignments.insert v value⟩

@[simp] theorem get?_insert_self (m : Model) (v : Variable) (value : Constant) :
    (m.insert v value).get? v = some value := OrderedMap.get?_insert_self m.assignments v value

theorem get?_insert_of_ne (m : Model) {v other : Variable} (apart : other ≠ v) (value : Constant) :
    (m.insert v value).get? other = m.get? other :=
  OrderedMap.get?_insert_of_ne m.assignments apart value

def valueOf? (m : Model) (name : String) : Option Constant :=
  (m.pairs.find? fun p => p.1.name == name).map Prod.snd

def size (m : Model) : Nat := m.assignments.size

def isEmpty (m : Model) : Bool := m.assignments.isEmpty

def trimmed (m : Model) (n : Nat) : Model := ⟨m.assignments.take n⟩

/-- The whole number a variable stands for: 0 where nothing or a real is assigned. -/
def intView (m : Model) (v : Variable) : Int64 := ((m.get? v).bind Constant.asInt).getD 0

def text (m : Model) : String :=
  "\x7b" ++ String.intercalate ", " (m.pairs.map fun p => p.1.name ++ "=" ++ p.2.text) ++ "\x7d"

def equals (a b : Model) : Bool :=
  a.size == b.size && (a.pairs.zip b.pairs).all fun (p, q) => p.1 == q.1 && p.2.equals q.2

end Model

end Reprise
