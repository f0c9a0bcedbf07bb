import Reprise.Proofs.Wire.Basic
import Reprise.Wire.Expr

/-!
Variables, constants and expressions of any depth are read back from their bytes.
-/
set_option autoImplicit false

namespace Reprise

namespace Wire

theorem getSort_putSort (sort : VarSort) : ReadsBack putSort getSort sort := by
  intro rest
  cases sort with
  | int =>
    rw [putSort, getSort, getTag_putTag (by decide)]
    rfl
  | real =>
    rw [putSort, getSort, getTag_putTag (by decide)]
    rfl
  | bitVec width =>
    rw [putSort, getSort, getTag_putTag (by decide)]
    simp only [getWord_putWord width rest, Option.map_some]

theorem getVariable_putVariable {v : Variable} (h : lengthFits v.name.utf8ByteSize = true) :
    ReadsBack putVariable getVariable v := by
  intro rest
  rw [putVariable, getVariable, getText_putText h]
  simp only [Option.bind_eq_bind, Option.bind_some, getSort_putSort _ _, getInt_putInt _ _]

theorem getConstant_putConstant (c : Constant) : ReadsBack putConstant getConstant c := by
  intro rest
  cases c with
  | int n =>
    rw [putConstant, getConstant, getTag_putTag (by decide)]
    simp only [getInt_putInt n rest, Option.map_some]
  | real r =>
    rw [putConstant, getConstant, getTag_putTag (by decide)]
    simp only [getLong_putLong r.bits rest, Option.map_some]
  | bitVec n width =>
    rw [putConstant, getConstant, getTag_putTag (by decide)]
    simp only [Option.bind_eq_bind, Option.bind_some, getInt_putInt _ _, getWord_putWord _ _]

theorem getExprWithin_putExpr {e : Expr} {depth : Nat} (deep : e.size ≤ depth)
    (fits : exprFits e = true) : ReadsBack putExpr (getExprWithin depth) e := by
  induction e generalizing depth with
  | var v =>
    intro rest
    obtain ⟨depth, rfl⟩ := Nat.exists_eq_succ_of_ne_zero (show depth ≠ 0 by simp [Expr.size] at deep; omega)
    rw [putExpr, getExprWithin, getTag_putTag (by decide)]
    simp only [getVariable_putVariable fits rest, Option.map_some]
  | const c =>
    intro rest
    obtain ⟨depth, rfl⟩ := Nat.exists_eq_succ_of_ne_zero (show depth ≠ 0 by simp [Expr.size] at deep; omega)
    rw [putExpr, getExprWithin, getTag_putTag (by decide)]
    simp only [getConstant_putConstant c rest, Option.map_some]
  | unary op e ih =>
    intro rest
    rw [Expr.size] at deep
    obtain ⟨depth, rfl⟩ := Nat.exists_eq_succ_of_ne_zero (show depth ≠ 0 by omega)
    have index := (Operator.unary op).index_lt
    have tag : ∀ rest, getTag (putTag (Operator.unary op).index rest) = some (_, rest) :=
      getTag_putTag (by omega)
    have below : e.size ≤ depth := by omega
    have operand := ih below fits rest
    rw [putExpr, getExprWithin, getTag_putTag (by decide)]
    simp only [Option.bind_eq_bind, Option.bind_some, tag,
      Operator.ofIndex?_index, getLength_putLength (by decide : lengthFits 1 = true), operand]
  | binary op l r ihl ihr =>
    intro rest
    rw [Expr.size] at deep
    rw [exprFits, Bool.and_eq_true] at fits
    obtain ⟨depth, rfl⟩ := Nat.exists_eq_succ_of_ne_zero (show depth ≠ 0 by omega)
    have index := (Operator.binary op).index_lt
    have tag : ∀ rest, getTag (putTag (Operator.binary op).index rest) = some (_, rest) :=
      getTag_putTag (by omega)
    have below_l : l.size ≤ depth := by omega
    have below_r : r.size ≤ depth := by omega
    have left := ihl below_l fits.1 (putExpr r rest)
    have right := ihr below_r fits.2 rest
    rw [putExpr, getExprWithin, getTag_putTag (by decide)]
    simp only [Option.bind_eq_bind, Option.bind_some, tag,
      Operator.ofIndex?_index, getLength_putLength (by decide : lengthFits 2 = true), left, right]

theorem length_putNat (count n : Nat) (rest : Bytes) :
    (putNat count n rest).length = count + rest.length := by
  induction count generalizing n with
  | zero => rw [putNat, Nat.zero_add]
  | succ count ih =>
    rw [putNat, List.length_cons, ih]
    omega

theorem size_add_length_le (e : Expr) (rest : Bytes) :
    e.size + rest.length ≤ (putExpr e rest).length := by
  induction e generalizing rest with
  | var v =>
    rw [putExpr, Expr.size, putTag, length_putNat, putVariable, putText, putLength, length_putNat]
    simp only [List.length_append, putInt, putLong]
    cases v.sort <;> simp only [putSort, putTag, putWord, length_putNat] <;> omega
  | const c =>
    rw [putExpr, Expr.size, putTag, length_putNat]
    cases c <;>
      simp only [putConstant, putTag, putInt, putLong, putWord, length_putNat] <;> omega
  | unary op e ih =>
    have operand := ih rest
    simp only [putExpr, Expr.size, putTag, putLength, length_putNat]
    omega
  | binary op l r ihl ihr =>
    have left := ihl (putExpr r rest)
    have right := ihr rest
    simp only [putExpr, Expr.size, putTag, putLength, length_putNat]
    omega

theorem getExpr_putExpr {e : Expr} (fits : exprFits e = true) : ReadsBack putExpr getExpr e := by
  intro rest
  have room := size_add_length_le e rest
  exact getExprWithin_putExpr (by omega) fits rest

end Wire

end Reprise
