import Reprise.Proofs.Expr.Parentheses
import Reprise.Proofs.Text.Nesting

/-!
What stands in parentheses in a canonical text where no name has a parenthesis in it: the operations
below the root and nothing else.
-/
set_option autoImplicit false

namespace Reprise

open Text (NoParenthesis WellNested)

theorem UnaryOp.noParenthesis (op : UnaryOp) : NoParenthesis op.symbol.toList := by
  cases op <;> decide

theorem BinaryOp.noParenthesis (op : BinaryOp) : NoParenthesis op.symbol.toList := by
  cases op <;> decide

namespace Expr

/-- No name has a parenthesis in it. -/
def PlainNames (e : Expr) : Prop := ∀ v ∈ e.vars, NoParenthesis v.name.toList

instance (e : Expr) : Decidable e.PlainNames :=
  inferInstanceAs (Decidable (∀ v ∈ e.vars, NoParenthesis v.name.toList))

theorem plainNames_unary {op : UnaryOp} {e : Expr} :
    (Expr.unary op e).PlainNames ↔ e.PlainNames := by
  simp [PlainNames]

theorem plainNames_binary {op : BinaryOp} {l r : Expr} :
    (Expr.binary op l r).PlainNames ↔ l.PlainNames ∧ r.PlainNames := by
  simp only [PlainNames, mem_vars_binary, or_imp, forall_and]

theorem noParenthesis_leaf {e : Expr} (leaf : e.isOperation = false) (names : e.PlainNames) :
    NoParenthesis e.spelling.toList := by
  cases e with
  | var v => exact names v (by simp)
  | const c => exact c.token_text.noParenthesis
  | unary op e => cases leaf
  | binary op l r => cases leaf

theorem wellNested_operandText {e : Expr} (h : WellNested e.spelling.toList) : WellNested e.operandText := by
  cases kind : e.isOperation with
  | true =>
    rw [operandText_of_operation kind]
    exact h.enclose
  | false => rwa [operandText_leaf kind]

theorem wellNested_spelling {e : Expr} (names : e.PlainNames) : WellNested e.spelling.toList := by
  induction e with
  | var v => exact (noParenthesis_leaf rfl names).wellNested
  | const c => exact (noParenthesis_leaf rfl names).wellNested
  | unary op e ih =>
    have operand := wellNested_operandText (ih (plainNames_unary.mp names))
    rw [toList_spelling_unary]
    exact op.noParenthesis.wellNested.append operand
  | binary op l r ihl ihr =>
    obtain ⟨names_l, names_r⟩ := plainNames_binary.mp names
    have left := wellNested_operandText (ihl names_l)
    have right := wellNested_operandText (ihr names_r)
    rw [toList_spelling_binary]
    exact left.append (op.noParenthesis.wellNested.append right)

/-- Wherever a parenthesis is opened in the text, one of the nodes follows, and then it is closed. -/
def Opens (nodes : List Expr) (text : List Char) : Prop :=
  ∀ before after, text = before ++ '(' :: after →
    ∃ n ∈ nodes, n.isOperation = true ∧ ∃ rest, after = n.spelling.toList ++ ')' :: rest

theorem opens_plain {text : List Char} (h : '(' ∉ text) : Opens [] text := by
  rintro before after rfl
  exact absurd (by simp) h

theorem Opens.append {nodes nodes' : List Expr} {s t : List Char} (hs : Opens nodes s)
    (ht : Opens nodes' t) : Opens (nodes ++ nodes') (s ++ t) := by
  intro before after same
  obtain ⟨more, rfl, opened⟩ | ⟨more, split, opened⟩ := List.append_eq_append_iff.mp same
  · -- the parenthesis stands in the second text
    obtain ⟨n, mem, found⟩ := ht more after opened
    exact ⟨n, List.mem_append_right _ mem, found⟩
  · cases more with
    | nil =>
      obtain ⟨n, mem, found⟩ := ht [] after opened.symm
      exact ⟨n, List.mem_append_right _ mem, found⟩
    | cons c more =>
      obtain ⟨rfl, rfl⟩ := List.cons.inj opened
      obtain ⟨n, mem, operation, rest, rfl⟩ := hs before more split
      exact ⟨n, List.mem_append_left _ mem, operation, rest ++ t, by simp⟩

theorem opens_operandText {e : Expr} (h : Opens e.inner e.spelling.toList) :
    Opens (e :: e.inner) e.operandText := by
  intro before after same
  cases kind : e.isOperation with
  | false =>
    rw [operandText_leaf kind] at same
    obtain ⟨n, mem, found⟩ := h before after same
    exact ⟨n, List.mem_cons_of_mem _ mem, found⟩
  | true =>
    rw [operandText_of_operation kind, parenthesised] at same
    cases before with
    | nil =>
      obtain ⟨-, rfl⟩ := List.cons.inj same
      exact ⟨e, List.mem_cons_self, kind, [], rfl⟩
    | cons c before =>
      obtain ⟨-, later⟩ := List.cons.inj same
      have closing : Opens [] [')'] := opens_plain (by decide)
      obtain ⟨n, mem, found⟩ := h.append closing before after later
      rw [List.append_nil] at mem
      exact ⟨n, List.mem_cons_of_mem _ mem, found⟩

theorem opens_spelling {e : Expr} (names : e.PlainNames) : Opens e.inner e.spelling.toList := by
  induction e with
  | var v => exact opens_plain (noParenthesis_leaf rfl names).1
  | const c => exact opens_plain (noParenthesis_leaf rfl names).1
  | unary op e ih =>
    have operand := opens_operandText (ih (plainNames_unary.mp names))
    rw [toList_spelling_unary]
    exact (opens_plain op.noParenthesis.1).append operand
  | binary op l r ihl ihr =>
    obtain ⟨names_l, names_r⟩ := plainNames_binary.mp names
    have left := opens_operandText (ihl names_l)
    have right := opens_operandText (ihr names_r)
    rw [toList_spelling_binary]
    exact left.append ((opens_plain op.noParenthesis.1).append right)

/-- An expression stands in parentheses exactly if an operation below the root has its text. -/
theorem parenthesised_infix_iff {e k : Expr} (names : e.PlainNames) (names' : k.PlainNames) :
    k.parenthesised <:+: e.spelling.toList ↔
      ∃ n ∈ e.inner, n.isOperation = true ∧ n.spelling = k.spelling := by
  constructor
  · rintro ⟨before, after, same⟩
    have opened : e.spelling.toList = before ++ '(' :: (k.spelling.toList ++ ')' :: after) := by
      simp [← same, parenthesised]
    obtain ⟨n, mem, operation, rest, text⟩ := opens_spelling names before _ opened
    have names_n : n.PlainNames := fun v hv => names v (mem_vars_of_inner mem hv)
    refine ⟨n, mem, operation, String.toList_inj.mp ?_⟩
    exact ((wellNested_spelling names').inj (wellNested_spelling names_n) text).symm
  · rintro ⟨n, mem, operation, same⟩
    have inside := parenthesised_infix_inner mem operation
    rwa [parenthesised, same] at inside

end Expr

end Reprise
