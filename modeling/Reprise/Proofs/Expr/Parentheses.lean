import Reprise.Proofs.Expr.Alike
import Reprise.Proofs.Expr.Conjuncts
import Reprise.Proofs.Text.Bare

/-!
What stands in parentheses in a canonical text: of a conjunction every conjunct that is an operation,
but never the whole expression, and never a name alone.
-/
set_option autoImplicit false

namespace Reprise

open Text (isWord Words Token bareAfter bareAfter_append)

namespace Expr

def parenthesised (e : Expr) : List Char := '(' :: (e.spelling.toList ++ [')'])

theorem toList_parenthesised (e : Expr) : ("(" ++ e.spelling ++ ")").toList = e.parenthesised := by
  simp [parenthesised]

theorem operandText_of_operation {e : Expr} (operation : e.isOperation = true) :
    e.operandText = e.parenthesised := by
  have text := operandText_operation operation []
  rwa [List.append_nil] at text

theorem toList_spelling_unary (op : UnaryOp) (e : Expr) :
    (Expr.unary op e).spelling.toList = op.symbol.toList ++ e.operandText := by
  have text := spelling_unary op e []
  rwa [List.append_nil, List.append_nil] at text

theorem toList_spelling_binary (op : BinaryOp) (l r : Expr) :
    (Expr.binary op l r).spelling.toList = l.operandText ++ (op.symbol.toList ++ r.operandText) := by
  have text := spelling_binary op l r []
  rwa [List.append_nil, List.append_nil] at text

theorem spelling_binary_infix (op : BinaryOp) (l r : Expr) :
    l.operandText <:+: (Expr.binary op l r).spelling.toList ∧
      r.operandText <:+: (Expr.binary op l r).spelling.toList := by
  rw [toList_spelling_binary]
  exact ⟨⟨[], _, rfl⟩, ⟨l.operandText ++ op.symbol.toList, [], by simp⟩⟩

theorem operandText_infix {e : Expr} (operation : e.isOperation = true) :
    e.spelling.toList <:+: e.operandText := by
  rw [operandText_of_operation operation]
  exact ⟨['('], [')'], rfl⟩

theorem spelling_unary_infix (op : UnaryOp) (e : Expr) :
    e.operandText <:+: (Expr.unary op e).spelling.toList := by
  rw [toList_spelling_unary]
  exact ⟨op.symbol.toList, [], by simp⟩

def inner : Expr → List Expr
  | .var _ | .const _ => []
  | .unary _ e => e :: e.inner
  | .binary _ l r => (l :: l.inner) ++ (r :: r.inner)

theorem mem_vars_of_inner {e n : Expr} (mem : n ∈ e.inner) {v : Variable} (hv : v ∈ n.vars) :
    v ∈ e.vars := by
  have operand : ∀ x : Expr, (n ∈ x.inner → v ∈ x.vars) → n ∈ x :: x.inner → v ∈ x.vars := by
    intro x later mem
    cases mem with
    | head => exact hv
    | tail _ inside => exact later inside
  induction e with
  | var v => cases mem
  | const c => cases mem
  | unary op e ih => exact mem_vars_unary.mpr (operand e ih mem)
  | binary op l r ihl ihr =>
    exact mem_vars_binary.mpr ((List.mem_append.mp mem).imp (operand l ihl) (operand r ihr))

theorem parenthesised_infix_operandText {e n : Expr} (mem : n ∈ e :: e.inner)
    (operation : n.isOperation = true)
    (within : n ∈ e.inner → n.parenthesised <:+: e.spelling.toList) :
    n.parenthesised <:+: e.operandText := by
  cases mem with
  | head => exact ⟨[], [], by simp [operandText_of_operation operation]⟩
  | tail _ later =>
    cases kind : e.isOperation with
    | true =>
      have enclosed := operandText_infix kind
      exact (within later).trans enclosed
    | false =>
      rw [operandText_leaf kind]
      exact within later

theorem parenthesised_infix_inner {e n : Expr} (mem : n ∈ e.inner) (operation : n.isOperation = true) :
    n.parenthesised <:+: e.spelling.toList := by
  induction e with
  | var v => cases mem
  | const c => cases mem
  | unary op e ih =>
    have inside := spelling_unary_infix op e
    exact (parenthesised_infix_operandText mem operation ih).trans inside
  | binary op l r ihl ihr =>
    have inside := spelling_binary_infix op l r
    cases List.mem_append.mp mem with
    | inl left => exact (parenthesised_infix_operandText left operation ihl).trans inside.1
    | inr right => exact (parenthesised_infix_operandText right operation ihr).trans inside.2

theorem mem_of_mem_spine {e c : Expr} (mem : c ∈ e.spine) : c ∈ e :: e.inner := by
  fun_induction spine e with
  | case1 l r ihl ihr =>
    refine List.mem_cons_of_mem _ (List.mem_append.mpr ?_)
    exact (List.mem_append.mp mem).imp ihl ihr
  | case2 e not_and =>
    rw [List.mem_singleton.mp mem]
    exact List.mem_cons_self

theorem conjunct_mem_inner {l r c : Expr} (mem : c ∈ (Expr.binary .and l r).conjuncts) :
    c ∈ (Expr.binary .and l r).inner := by
  rw [conjuncts_eq_spine, spine] at mem
  exact List.mem_append.mpr ((List.mem_append.mp mem).imp mem_of_mem_spine mem_of_mem_spine)

theorem not_parenthesised_infix_self (e : Expr) : ¬ e.parenthesised <:+: e.spelling.toList := by
  intro inside
  have shorter := inside.length_le
  rw [parenthesised, List.length_cons, List.length_append, List.length_singleton] at shorter
  omega

def isConjunction : Expr → Bool
  | .binary .and _ _ => true
  | _ => false

theorem isConjunction_iff {e : Expr} : e.isConjunction = true ↔ ∃ l r, e = .binary .and l r := by
  constructor
  · intro h
    unfold isConjunction at h
    split at h
    · exact ⟨_, _, rfl⟩
    · cases h
  · rintro ⟨l, r, rfl⟩
    rfl

theorem conjuncts_of_not_conjunction {e : Expr} (h : e.isConjunction = false) : e.conjuncts = [e] := by
  rw [conjuncts_eq_spine]
  unfold spine
  split
  · cases h
  · rfl

/-- After the text the words read last are not alone behind a parenthesis. -/
def Settles (e : Expr) : Prop := ∀ bare, bareAfter bare e.spelling.toList = some false

theorem bareAfter_symbol (op : BinaryOp) (bare : Bool) :
    bareAfter bare op.symbol.toList = some false := by
  cases op <;> cases bare <;> decide

theorem bareAfter_operandText {e : Expr} (names : e.LegibleNames)
    (settles : e.isOperation = true → e.Settles) (bare : Bool) :
    ∃ after, bareAfter bare e.operandText = some after ∧ (bare = false → after = false) := by
  cases kind : e.isOperation with
  | false =>
    rw [operandText_leaf kind]
    exact Text.bareAfter_token (token_of_leaf kind names) bare
  | true =>
    have opened : bareAfter bare e.parenthesised = bareAfter true (e.spelling.toList ++ [')']) := rfl
    rw [operandText_of_operation kind, opened, bareAfter_append, settles kind true]
    exact ⟨false, rfl, fun _ => rfl⟩

theorem settles_of_operation {e : Expr} (names : e.LegibleNames) (operation : e.isOperation = true) :
    e.Settles := by
  induction e with
  | var v => cases operation
  | const c => cases operation
  | unary op e ih =>
    intro bare
    have names := legibleNames_unary.mp names
    have symbol : bareAfter bare op.symbol.toList = some false := by
      cases op <;> cases bare <;> decide
    obtain ⟨after, operand, closed⟩ := bareAfter_operandText names (ih names) false
    rw [toList_spelling_unary, bareAfter_append, symbol, Option.bind_some, operand, closed rfl]
  | binary op l r ihl ihr =>
    intro bare
    obtain ⟨names_l, names_r⟩ := legibleNames_binary.mp names
    obtain ⟨first, left, -⟩ := bareAfter_operandText names_l (ihl names_l) bare
    obtain ⟨after, right, closed⟩ := bareAfter_operandText names_r (ihr names_r) false
    rw [toList_spelling_binary, bareAfter_append, left, Option.bind_some, bareAfter_append,
      bareAfter_symbol, Option.bind_some, right, closed rfl]

theorem not_name_infix {e : Expr} (names : e.LegibleNames) {v : Variable} (mem : v ∈ e.vars) :
    ¬ (Expr.var v).parenthesised <:+: e.spelling.toList := by
  intro inside
  have stopped := Text.bareAfter_of_infix (names v mem).2 inside false
  cases kind : e.isOperation with
  | true =>
    rw [settles_of_operation names kind false] at stopped
    cases stopped
  | false =>
    obtain ⟨after, passed, -⟩ := Text.bareAfter_token (token_of_leaf kind names) false
    rw [passed] at stopped
    cases stopped

end Expr

end Reprise
