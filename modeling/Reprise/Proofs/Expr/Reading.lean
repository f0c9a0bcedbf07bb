import Reprise.Proofs.Expr.Alike
import Reprise.Proofs.Expr.Eval

/-!
Constraints of one text under one reading of the names: where one of them is true, nothing speaks
against the other.
-/
set_option autoImplicit false

namespace Reprise

open Text

def NoNumeral (name : String) : Prop := ∀ c ∈ name.toList.head?, c ≠ '-' ∧ c.isDigit = false

instance (name : String) : Decidable (NoNumeral name) :=
  decidable_of_iff (name.toList.head?.all fun c => c != '-' && !c.isDigit)
    (by cases h : name.toList.head? <;> simp [NoNumeral, h])

theorem NoNumeral.ne_toString {name : String} (h : NoNumeral name) (n : Int) : name ≠ toString n := by
  intro same
  obtain ⟨c, rest, chars, head⟩ := exists_head_toString n
  rw [← same] at chars
  obtain ⟨no_minus, no_digit⟩ := h c (by rw [chars]; rfl)
  cases head with
  | inl minus => exact no_minus minus
  | inr digit =>
    rw [no_digit] at digit
    cases digit

theorem Constant.text_of_asInt {c : Constant} {n : Int64} (h : c.asInt = some n) :
    c.text = toString n.toInt := by
  cases c with
  | int m => cases h; rfl
  | bitVec m width => cases h; rfl
  | real r => cases h

theorem Constant.asInt_inj {c c' : Constant} {n n' : Int64} (h : c.asInt = some n)
    (h' : c'.asInt = some n') (same : c.text = c'.text) : n = n' := by
  rw [text_of_asInt h, text_of_asInt h'] at same
  exact Int64.toInt_inj.mp (toString_inj same)

namespace Expr

def NoNumerals (e : Expr) : Prop := ∀ v ∈ e.vars, NoNumeral v.name

instance (e : Expr) : Decidable e.NoNumerals :=
  decidable_of_iff (e.vars.all fun v => decide (NoNumeral v.name)) (by simp [NoNumerals])

theorem noNumerals_unary {op : UnaryOp} {e : Expr} :
    (Expr.unary op e).NoNumerals ↔ e.NoNumerals := by
  simp [NoNumerals]

theorem noNumerals_binary {op : BinaryOp} {l r : Expr} :
    (Expr.binary op l r).NoNumerals ↔ l.NoNumerals ∧ r.NoNumerals := by
  simp only [NoNumerals, mem_vars_binary, or_imp, forall_and]

/-- Leaves of one text: one name, one whole number, or a real on one side. -/
inductive SameLeaf : Expr → Expr → Prop
  | names {v w : Variable} : v.name = w.name → SameLeaf (.var v) (.var w)
  | numbers {c c' : Constant} {n : Int64} : c.asInt = some n → c'.asInt = some n →
    SameLeaf (.const c) (.const c')
  | realLeft {c : Constant} {b : Expr} : c.asInt = none → SameLeaf (.const c) b
  | realRight {a : Expr} {c : Constant} : c.asInt = none → SameLeaf a (.const c)

theorem sameLeaf_of_spelling {a b : Expr} (numbers : a.NoNumerals) (numbers' : b.NoNumerals)
    (leaf : a.isOperation = false) (leaf' : b.isOperation = false) (same : a.spelling = b.spelling) :
    SameLeaf a b := by
  cases a with
  | unary op e => cases leaf
  | binary op l r => cases leaf
  | var v =>
    cases b with
    | unary op e => cases leaf'
    | binary op l r => cases leaf'
    | var w => exact .names same
    | const c =>
      cases number : c.asInt with
      | none => exact .realRight number
      | some n =>
        have text : v.name = c.text := same
        rw [Constant.text_of_asInt number] at text
        exact absurd text ((numbers v (by simp)).ne_toString _)
  | const c =>
    cases number : c.asInt with
    | none => exact .realLeft number
    | some n =>
      cases b with
      | unary op e => cases leaf'
      | binary op l r => cases leaf'
      | var w =>
        have text : c.text = w.name := same
        rw [Constant.text_of_asInt number] at text
        exact absurd text.symm ((numbers' w (by simp)).ne_toString _)
      | const c' =>
        cases number' : c'.asInt with
        | none => exact .realRight number'
        | some n' =>
          rw [← Constant.asInt_inj number number' same] at number'
          exact .numbers number number'

variable {read : Variable → Int64}

def NamesAgree (read : Variable → Int64) (a b : Expr) : Prop :=
  ∀ v ∈ a.vars, ∀ w ∈ b.vars, v.name = w.name → read v = read w

theorem SameLeaf.givesOrStops {a b : Expr} {value : Value} (leaf : SameLeaf a b)
    (agree : NamesAgree read a b) (h : b.evaluateWith read = .ok value) :
    a.GivesOrStops read value := by
  cases leaf with
  | @names v w same =>
    rw [evaluateWith_var, ← agree v (by simp) w (by simp) same] at h
    exact Or.inl ((evaluateWith_var read v).trans h)
  | numbers number number' =>
    rw [evaluateWith_const, number'] at h
    exact Or.inl (by rw [evaluateWith_const, number, h])
  | @realLeft c _ number => exact Or.inr ⟨c.text, by rw [evaluateWith_const, number]⟩
  | realRight number =>
    rw [evaluateWith_const, number] at h
    cases h

theorem Alike.givesOrStops {a b : Expr} (alike : Alike a b) (numbers : a.NoNumerals)
    (numbers' : b.NoNumerals) (agree : NamesAgree read a b) {value : Value}
    (h : b.evaluateWith read = .ok value) : a.GivesOrStops read value := by
  induction alike generalizing value with
  | leaf leaf leaf' same =>
    exact (sameLeaf_of_spelling numbers numbers' leaf leaf' same).givesOrStops agree h
  | @unary a b op _ ih =>
    rw [evaluateWith_unary] at h
    obtain ⟨operand, given, applied⟩ := bind_eq_ok h
    have below : NamesAgree read a b := fun v hv w hw => agree v (by simp [hv]) w (by simp [hw])
    exact (ih (noNumerals_unary.mp numbers) (noNumerals_unary.mp numbers') below given).unary applied
  | @binary l r l' r' op _ _ ihl ihr =>
    obtain ⟨numbers_l, numbers_r⟩ := noNumerals_binary.mp numbers
    obtain ⟨numbers_l', numbers_r'⟩ := noNumerals_binary.mp numbers'
    rw [evaluateWith_binary] at h
    obtain ⟨left, given_l, rest⟩ := bind_eq_ok h
    obtain ⟨right, given_r, applied⟩ := bind_eq_ok rest
    have agree_l : NamesAgree read l l' := fun v hv w hw => agree v (by simp [hv]) w (by simp [hw])
    have agree_r : NamesAgree read r r' := fun v hv w hw => agree v (by simp [hv]) w (by simp [hw])
    have gives_l := ihl numbers_l numbers_l' agree_l given_l
    have gives_r := ihr numbers_r numbers_r' agree_r given_r
    exact gives_l.binary gives_r applied

theorem isOperation_of_holds {e : Expr} (h : e.Holds read) :
    e.isOperation = true ∧ e.isNegatedLeaf = false := by
  cases e with
  | var v =>
    rw [Holds, evaluateWith_var] at h
    cases h
  | const c =>
    rw [Holds, evaluateWith_const] at h
    cases number : c.asInt <;> rw [number] at h <;> cases h
  | binary op l r => exact ⟨rfl, rfl⟩
  | unary op e =>
    cases op with
    | not => exact ⟨rfl, rfl⟩
    | neg =>
      rw [Holds, evaluateWith_unary] at h
      obtain ⟨value, -, applied⟩ := bind_eq_ok h
      cases value <;> cases applied

theorem stands_of_canonical {a b : Expr} (names : a.LegibleNames) (names' : b.LegibleNames)
    (numbers : a.NoNumerals) (numbers' : b.NoNumerals) (same : a.canonical = b.canonical)
    (agree : NamesAgree read a b) (h : b.Holds read) : a.Stands read := by
  rw [canonical_eq_spelling, canonical_eq_spelling] at same
  obtain ⟨operation', not_negated⟩ := isOperation_of_holds h
  cases operation : a.isOperation with
  | false =>
    rw [isNegatedLeaf_of_leaf names names' operation operation' same] at not_negated
    cases not_negated
  | true =>
    have alike := alike_of_operations names names' operation operation' same
    exact alike.givesOrStops numbers numbers' agree h

end Expr

end Reprise
