import Reprise.Expr.Canonical
import Reprise.Proofs.Expr.Places

/-!
The canonical text is the spelling by recursion, whichever texts of nodes are already at hand.
-/
set_option autoImplicit false

namespace Reprise

namespace Expr

def Piece.spelled : Piece → String
  | .text s => s
  | .node e _ => e.spelling
  | .operand e _ => e.enclose e.spelling

def Piece.PlacedIn (root : Expr) : Piece → Prop
  | .text _ => True
  | .node e path | .operand e path => root.at? path.reverse = some e

/-- The texts at hand are those of the nodes they stand for. -/
def KnowsSpellings (root : Expr) (atHand : Path → Option String) : Prop :=
  ∀ path known n, atHand path = some known → root.at? path.reverse = some n → known = n.spelling

variable {root : Expr} {atHand : Path → Option String}

theorem placedIn_operand {e n : Expr} {path : Path} (placed : (Piece.node e path).PlacedIn root)
    {turn : Bool} (operand : e.operand? turn = some n) : (Piece.operand n (turn :: path)).PlacedIn root := by
  rw [Piece.PlacedIn, List.reverse_cons, at?_snoc placed, operand]

theorem renderPieces_eq (knows : KnowsSpellings root atHand) (pieces : List Piece) (written : String)
    (placed : ∀ p ∈ pieces, p.PlacedIn root) :
    renderPieces atHand pieces written = written ++ String.join (pieces.map Piece.spelled) := by
  fun_induction renderPieces atHand pieces written with
  | case1 written => simp
  | case2 s rest written ih =>
    obtain ⟨-, later⟩ := List.forall_mem_cons.mp placed
    simp [ih later, Piece.spelled, String.append_assoc]
  | case3 e path rest written operation known found ih =>
    obtain ⟨here, later⟩ := List.forall_mem_cons.mp placed
    have right := knows path known e found here
    rw [ih later]
    simp [Piece.spelled, enclose, operation, right, String.append_assoc]
  | case4 e path rest written operation absent ih =>
    obtain ⟨here, later⟩ := List.forall_mem_cons.mp placed
    simp only [List.forall_mem_cons] at ih
    rw [ih ⟨trivial, here, trivial, later⟩]
    simp [Piece.spelled, enclose, operation, String.append_assoc]
  | case5 e path rest written leaf ih =>
    obtain ⟨here, later⟩ := List.forall_mem_cons.mp placed
    simp only [List.forall_mem_cons] at ih
    rw [ih ⟨here, later⟩]
    simp [Piece.spelled, enclose, leaf]
  | case6 v path rest written ih =>
    obtain ⟨-, later⟩ := List.forall_mem_cons.mp placed
    simp [ih later, Piece.spelled, spelling, String.append_assoc]
  | case7 c path rest written ih =>
    obtain ⟨-, later⟩ := List.forall_mem_cons.mp placed
    simp [ih later, Piece.spelled, spelling, String.append_assoc]
  | case8 op e path rest written ih =>
    obtain ⟨here, later⟩ := List.forall_mem_cons.mp placed
    simp only [List.forall_mem_cons] at ih
    rw [ih ⟨trivial, placedIn_operand here rfl, later⟩]
    simp [Piece.spelled, spelling, String.append_assoc]
  | case9 op l r path rest written ih =>
    obtain ⟨here, later⟩ := List.forall_mem_cons.mp placed
    simp only [List.forall_mem_cons] at ih
    rw [ih ⟨placedIn_operand here rfl, trivial, placedIn_operand here rfl, later⟩]
    simp [Piece.spelled, spelling, String.append_assoc]

theorem render_eq_spelling {e : Expr} (knows : KnowsSpellings e atHand) : e.render atHand = e.spelling := by
  have placed : ∀ p ∈ [Piece.node e []], p.PlacedIn e := by
    intro p mem
    rw [List.mem_singleton.mp mem]
    rfl
  rw [render, renderPieces_eq knows _ _ placed]
  simp [Piece.spelled]

theorem canonical_eq_spelling (e : Expr) : e.canonical = e.spelling :=
  render_eq_spelling nofun

end Expr

end Reprise
