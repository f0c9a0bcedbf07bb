import Reprise.Proofs.Distance.Probe

/-!
What a canonical text means. Where variables have the names of identifiers and constants are whole
numbers, two expressions of one text have the same value or the same fault under readings that agree
on the names. They also have the same violations, but for a number whose text has its sign from the
operator.
-/
set_option autoImplicit false

namespace Reprise

open Text

namespace Text

/-- Letters, digits and underscores; whatever lies beyond ASCII counts as a letter. -/
def isIdentifierChar (c : Char) : Bool := c.isAlphanum || c == '_' || decide (128 ≤ c.toNat)

/-- The text is an identifier, which no digit begins. -/
def Identifier (text : List Char) : Prop :=
  text ≠ [] ∧ (∀ c ∈ text, isIdentifierChar c = true) ∧ ∀ c ∈ text.head?, c.isDigit = false

instance (text : List Char) : Decidable (Identifier text) :=
  decidable_of_iff
    (text ≠ [] ∧ text.all isIdentifierChar = true ∧ text.head?.all (fun c => !c.isDigit) = true)
    (by cases text <;> simp [Identifier])

theorem ne_mark_of_isIdentifierChar {c : Char} (h : isIdentifierChar c = true) : c ∉ marks := by
  have none_in : marks.all (fun m => !isIdentifierChar m) = true := by decide
  intro mark
  have no_char := List.all_eq_true.mp none_in c mark
  rw [h] at no_char
  cases no_char

theorem Identifier.words {text : List Char} (h : Identifier text) : Words text :=
  ⟨h.1, fun c mem => isWord_iff.mpr (ne_mark_of_isIdentifierChar (h.2.1 c mem))⟩

theorem Identifier.noNumeral {name : String} (h : Identifier name.toList) : NoNumeral name := by
  intro c head
  have no_mark := ne_mark_of_isIdentifierChar (h.2.1 c (List.mem_of_mem_head? head))
  refine ⟨?_, h.2.2 c head⟩
  rintro rfl
  exact no_mark (by decide)

theorem toList_eq_toString_neg {n : Int} {rest : List Char}
    (h : (toString n).toList = '-' :: rest) : rest = (toString (-n)).toList := by
  rw [toList_toString] at h
  by_cases low : 0 ≤ n
  · rw [if_pos low, ← List.append_nil (Nat.repr _).toList] at h
    exact absurd h ((words_repr _).ne_minus _ _)
  · rw [if_neg low] at h
    rw [toList_toString, if_pos (by omega)]
    exact (List.cons.inj h).2.symm

end Text

theorem Int64.eq_neg_of_toInt {m n : Int64} (h : -n.toInt = m.toInt) : n = -m := by
  calc n = Int64.ofInt n.toInt := n.ofInt_toInt.symm
    _ = Int64.ofInt (-m.toInt) := by rw [← h, Int.neg_neg]
    _ = -m := by rw [Int64.ofInt_neg, Int64.ofInt_toInt]

namespace Expr

/-- All names are identifiers. -/
def Identified (e : Expr) : Prop := ∀ v ∈ e.vars, Identifier v.name.toList

instance (e : Expr) : Decidable e.Identified :=
  decidable_of_iff (e.vars.all fun v => decide (Identifier v.name.toList)) (by simp [Identified])

theorem Identified.legibleNames {e : Expr} (h : e.Identified) : e.LegibleNames :=
  fun v mem => (h v mem).words

theorem Identified.noNumerals {e : Expr} (h : e.Identified) : e.NoNumerals :=
  fun v mem => (h v mem).noNumeral

def isNegatedLiteral : Expr → Bool
  | .unary .neg (.const _) => true
  | _ => false

/-- A number, and the minus before the opposite number. -/
inductive Opposite : Expr → Expr → Prop
  | numbers {c c' : Constant} {n : Int64} : c.asInt = some (-n) → c'.asInt = some n →
    Opposite (.const c) (.unary .neg (.const c'))

theorem opposite_of_leaf {a x : Expr} (names : a.Identified) (names' : x.Identified)
    (whole : a.isWhole = true) (whole' : x.isWhole = true) (leaf : a.isOperation = false)
    (leaf' : x.isOperation = false) (same : a.spelling.toList = '-' :: x.spelling.toList) :
    Opposite a (.unary .neg x) := by
  cases a with
  | unary op e => cases leaf
  | binary op l r => cases leaf
  | var v =>
    have words := (names v (by simp)).words
    rw [← List.append_nil (spelling _).toList] at same
    exact absurd same (words.ne_minus _ _)
  | const c =>
    obtain ⟨n, number⟩ := Option.isSome_iff_exists.mp whole
    rw [spelling, Constant.text_of_asInt number] at same
    have rest := toList_eq_toString_neg same
    cases x with
    | unary op e => cases leaf'
    | binary op l r => cases leaf'
    | var w =>
      have numeral : w.name = toString (-n.toInt) := String.toList_inj.mp rest
      exact absurd numeral ((names' w (by simp)).noNumeral.ne_toString _)
    | const c' =>
      obtain ⟨m, number'⟩ := Option.isSome_iff_exists.mp whole'
      rw [spelling, Constant.text_of_asInt number'] at rest
      have opposite : -n.toInt = m.toInt := (toString_inj (String.toList_inj.mp rest)).symm
      rw [Int64.eq_neg_of_toInt opposite] at number
      exact .numbers number number'

theorem opposite_of_spelling {a b : Expr} (names : a.Identified) (names' : b.Identified)
    (whole : a.isWhole = true) (whole' : b.isWhole = true) (leaf : a.isOperation = false)
    (operation : b.isOperation = true) (same : a.spelling = b.spelling) : Opposite a b := by
  have negated := isNegatedLeaf_of_leaf names.legibleNames names'.legibleNames leaf operation same
  cases b with
  | var v => cases operation
  | const c => cases operation
  | binary op l r => cases negated
  | unary op x =>
    cases op with
    | not => cases negated
    | neg =>
      have leaf' : x.isOperation = false := by simpa [isNegatedLeaf] using negated
      have below : x.Identified := fun v mem => names' v (by simp [mem])
      refine opposite_of_leaf names below whole whole' leaf leaf' ?_
      have text := spelling_unary .neg x []
      rw [List.append_nil, List.append_nil, operandText_leaf leaf'] at text
      rw [same, text]
      rfl

/-- Expressions of one text are alike, or they are a number and the minus before its opposite. -/
theorem alike_or_opposite {a b : Expr} (names : a.Identified) (names' : b.Identified)
    (whole : a.isWhole = true) (whole' : b.isWhole = true) (same : a.canonical = b.canonical) :
    Alike a b ∨ Opposite a b ∨ Opposite b a := by
  rw [canonical_eq_spelling, canonical_eq_spelling] at same
  cases kind : a.isOperation with
  | false =>
    cases kind' : b.isOperation with
    | false => exact Or.inl (.leaf kind kind' same)
    | true => exact Or.inr (Or.inl (opposite_of_spelling names names' whole whole' kind kind' same))
  | true =>
    cases kind' : b.isOperation with
    | false =>
      exact Or.inr (Or.inr (opposite_of_spelling names' names whole' whole kind' kind same.symm))
    | true =>
      exact Or.inl (alike_of_operations names.legibleNames names'.legibleNames kind kind' same)

variable {read read' : Variable → Int64}

theorem Opposite.evaluateWith_eq {a b : Expr} (h : Opposite a b) :
    a.evaluateWith read = b.evaluateWith read' := by
  cases h with
  | numbers number number' =>
    rw [evaluateWith_unary, evaluateWith_const, evaluateWith_const, number, number']
    rfl

theorem Opposite.isNegatedLiteral_ne {a b : Expr} (h : Opposite a b) :
    a.isNegatedLiteral = false ∧ b.isNegatedLiteral = true := by
  cases h with
  | numbers => exact ⟨rfl, rfl⟩

/-- Variables of one name read the same in the one expression and the other. -/
def ReadingsAgree (read read' : Variable → Int64) (a b : Expr) : Prop :=
  ∀ v ∈ a.vars, ∀ w ∈ b.vars, v.name = w.name → read v = read' w

instance (a b : Expr) : Decidable (ReadingsAgree read read' a b) :=
  inferInstanceAs (Decidable (∀ v ∈ a.vars, ∀ w ∈ b.vars, _))

theorem SameLeaf.evaluateWith_eq {a b : Expr} (leaf : SameLeaf a b) (whole : a.isWhole = true)
    (whole' : b.isWhole = true) (agree : ReadingsAgree read read' a b) :
    a.evaluateWith read = b.evaluateWith read' := by
  cases leaf with
  | @names v w same => rw [evaluateWith_var, evaluateWith_var, agree v (by simp) w (by simp) same]
  | numbers number number' => rw [evaluateWith_const, evaluateWith_const, number, number']
  | realLeft number => simp [isWhole, number] at whole
  | realRight number => simp [isWhole, number] at whole'

theorem Alike.evaluateWith_eq {a b : Expr} (alike : Alike a b) (numbers : a.NoNumerals)
    (numbers' : b.NoNumerals) (whole : a.isWhole = true) (whole' : b.isWhole = true)
    (agree : ReadingsAgree read read' a b) : a.evaluateWith read = b.evaluateWith read' := by
  induction alike with
  | leaf leaf leaf' same =>
    exact (sameLeaf_of_spelling numbers numbers' leaf leaf' same).evaluateWith_eq whole whole' agree
  | @unary a b op _ ih =>
    have below : ReadingsAgree read read' a b :=
      fun v hv w hw => agree v (by simp [hv]) w (by simp [hw])
    have operand := ih (noNumerals_unary.mp numbers) (noNumerals_unary.mp numbers') whole whole' below
    rw [evaluateWith_unary, evaluateWith_unary, operand]
  | @binary l r l' r' op _ _ ihl ihr =>
    obtain ⟨numbers_l, numbers_r⟩ := noNumerals_binary.mp numbers
    obtain ⟨numbers_l', numbers_r'⟩ := noNumerals_binary.mp numbers'
    obtain ⟨whole_l, whole_r⟩ := Bool.and_eq_true_iff.mp whole
    obtain ⟨whole_l', whole_r'⟩ := Bool.and_eq_true_iff.mp whole'
    have agree_l : ReadingsAgree read read' l l' :=
      fun v hv w hw => agree v (by simp [hv]) w (by simp [hw])
    have agree_r : ReadingsAgree read read' r r' :=
      fun v hv w hw => agree v (by simp [hv]) w (by simp [hw])
    have left := ihl numbers_l numbers_l' whole_l whole_l' agree_l
    have right := ihr numbers_r numbers_r' whole_r whole_r' agree_r
    rw [evaluateWith_binary, evaluateWith_binary, left, right]

/-- The canonical text decides the value or the fault, and but for the sign of a number the
violations. -/
theorem meaning_of_canonical {a b : Expr} (names : a.Identified) (names' : b.Identified)
    (whole : a.isWhole = true) (whole' : b.isWhole = true) (same : a.canonical = b.canonical) :
    (∀ m m' : Model, ReadingsAgree m.intView m'.intView a b →
      a.evaluate m = b.evaluate m' ∧ a.satisfies m = b.satisfies m') ∧
    (a.isNegatedLiteral = b.isNegatedLiteral →
      ∀ reference, a.probe reference = b.probe reference) := by
  have kinds := alike_or_opposite names names' whole whole' same
  constructor
  · intro m m' agree
    have value : a.evaluate m = b.evaluate m' := by
      rcases kinds with alike | opposite | opposite
      · exact alike.evaluateWith_eq names.noNumerals names'.noNumerals whole whole' agree
      · exact opposite.evaluateWith_eq
      · exact opposite.evaluateWith_eq.symm
    exact ⟨value, congrArg truth value⟩
  · intro sign reference
    rw [probe_eq, probe_eq]
    rcases kinds with alike | opposite | opposite
    · have leaves := leavesAgree_of_isWhole names.noNumerals names'.noNumerals whole whole'
      rw [alike.violationAt_eq leaves]
    · rw [opposite.isNegatedLiteral_ne.1, opposite.isNegatedLiteral_ne.2] at sign
      cases sign
    · rw [opposite.isNegatedLiteral_ne.1, opposite.isNegatedLiteral_ne.2] at sign
      cases sign

/-- `x_1<<-5` over words and over integers; the fault of the shift is the same. -/
theorem meaning_of_shift :
    let x : Variable := ⟨"x_1", .bitVec 8, -128, 127⟩
    let x' : Variable := ⟨"x_1", .int, 0, 9⟩
    let a : Expr := .binary .lt (.binary .shl (.var x) (.const (.bitVec (-5) 8))) (.var x)
    let b : Expr := .binary .lt (.binary .shl (.var x') (.int (-5))) (.var x')
    a.evaluate (.ofList [(x, .bitVec 3 8)]) = b.evaluate (.ofList [(x', .int 3)]) ∧
      ∀ reference, a.probe reference = b.probe reference := by
  intro x x' a b
  have both := meaning_of_canonical (a := a) (b := b) (by decide +kernel) (by decide +kernel) rfl rfl
    (by decide +kernel)
  exact ⟨(both.1 (.ofList [(x, .bitVec 3 8)]) (.ofList [(x', .int 3)]) (by decide +kernel)).1,
    both.2 rfl⟩

end Expr

end Reprise
