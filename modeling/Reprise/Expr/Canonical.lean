import Reprise.Expr.Basic

/-!
The canonical text of an expression: a variable is its name, a constant its value, an operation its
symbol before or between the operands, and an operand that is itself an operation stands in
parentheses. Texts decide when two expressions count as the same and in which order clauses stand.

`spelling` says the rule by recursion. `canonical` is the text in use: it works through a list of
pieces, so that a deep expression takes time in proportion to its text, and it takes over texts of
operands that are already at hand.
-/
set_option autoImplicit false

namespace Reprise

namespace Expr

def enclose (e : Expr) (text : String) : String :=
  if e.isOperation then "(" ++ text ++ ")" else text

def spelling : Expr → String
  | .var v => v.name
  | .const c => c.text
  | .unary op e => op.symbol ++ e.enclose e.spelling
  | .binary op l r => l.enclose l.spelling ++ op.symbol ++ r.enclose r.spelling

/-- The way from the root to a node, last turn first; `true` turns to the right operand. -/
abbrev Path : Type := List Bool

inductive Piece where
  | text (s : String)
  | node (e : Expr) (path : Path)
  | operand (e : Expr) (path : Path)

namespace Piece

def weight : Piece → Nat
  | .text _ => 1
  | .node e _ => 8 * e.size
  | .operand e _ => 8 * e.size + 3

def load : List Piece → Nat
  | [] => 0
  | p :: rest => p.weight + load rest

end Piece

def renderPieces (atHand : Path → Option String) : List Piece → String → String
  | [], written => written
  | .text s :: rest, written => renderPieces atHand rest (written ++ s)
  | .operand e path :: rest, written =>
    if e.isOperation then
      match atHand path with
      | some known => renderPieces atHand rest (written ++ "(" ++ known ++ ")")
      | none => renderPieces atHand (.text "(" :: .node e path :: .text ")" :: rest) written
    else renderPieces atHand (.node e path :: rest) written
  | .node (.var v) _ :: rest, written => renderPieces atHand rest (written ++ v.name)
  | .node (.const c) _ :: rest, written => renderPieces atHand rest (written ++ c.text)
  | .node (.unary op e) path :: rest, written =>
    renderPieces atHand (.text op.symbol :: .operand e (false :: path) :: rest) written
  | .node (.binary op l r) path :: rest, written =>
    renderPieces atHand
      (.operand l (false :: path) :: .text op.symbol :: .operand r (true :: path) :: rest) written
termination_by pieces => Piece.load pieces
decreasing_by
  all_goals simp only [Piece.load, Piece.weight, size]
  all_goals omega

/-- The text of an expression, where the texts of some operations inside it are at hand. -/
def render (atHand : Path → Option String) (e : Expr) : String :=
  renderPieces atHand [.node e []] ""

def canonical (e : Expr) : String := e.render fun _ => none

def same (a b : Expr) : Bool := a.canonical == b.canonical

end Expr

end Reprise
