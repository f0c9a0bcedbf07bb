import Reprise.Proofs.Answer.Core
import Reprise.Proofs.Expr.Nested

/-!
Containment of a core in a constraint. It is looked for in the text, and where no name has a parenthesis
in it, the text shows just the operations below the root.
-/
set_option autoImplicit false

namespace Reprise

namespace Core

variable {c : Core} {target : Expr}

theorem isContainedIn_iff_parenthesised :
    c.isContainedIn target = true ↔ c.clauses ≠ [] ∧
      (∀ k ∈ c.clauses, k.parenthesised <:+: target.spelling.toList) ∧
      ∀ k ∈ c.clauses, ∀ v ∈ k.vars, v ∈ target.vars := by
  rw [isContainedIn_iff]
  simp only [Text.occursIn_iff, Expr.canonical_eq_spelling, Expr.toList_parenthesised]

theorem isContainedIn_of_conjuncts (conjunction : target.isConjunction = true)
    (nonempty : c.clauses ≠ [])
    (own : ∀ k ∈ c.clauses, k ∈ target.conjuncts ∧ k.isOperation = true) :
    c.isContainedIn target = true := by
  obtain ⟨l, r, rfl⟩ := Expr.isConjunction_iff.mp conjunction
  refine isContainedIn_iff_parenthesised.mpr ⟨nonempty, fun k mem => ?_, fun k mem v hv => ?_⟩
  · exact Expr.parenthesised_infix_inner (Expr.conjunct_mem_inner (own k mem).1) (own k mem).2
  · exact Expr.mem_vars_iff_conjuncts.mpr ⟨k, (own k mem).1, hv⟩

/-- A core is contained exactly if every clause has the text of an operation below the root, and its
variables are variables of the target. -/
theorem isContainedIn_iff_inner (names : target.PlainNames) :
    (c.isContainedIn target = true ↔ c.clauses ≠ [] ∧
      (∀ k ∈ c.clauses, ∃ n ∈ target.inner, n.isOperation = true ∧ n.canonical = k.canonical) ∧
      ∀ k ∈ c.clauses, ∀ v ∈ k.vars, v ∈ target.vars) ∧
    (target.isConjunction = true → c.clauses ≠ [] →
      (∀ k ∈ c.clauses, k ∈ target.conjuncts ∧ k.isOperation = true) →
        c.isContainedIn target = true) := by
  refine ⟨?_, isContainedIn_of_conjuncts⟩
  rw [isContainedIn_iff_parenthesised]
  simp only [Expr.canonical_eq_spelling]
  refine and_congr_right fun _ => and_congr_left fun vars => forall₂_congr fun k mem => ?_
  -- the clause has no parenthesis in a name either, as its variables are the target's
  exact Expr.parenthesised_infix_iff names fun v hv => names v (vars k mem v hv)

section Samples

def near : Variable := ⟨"near", .int, 0, 9⟩

def far : Variable := ⟨"far", .int, 0, 9⟩

def nearHigh : Expr := .binary .gt (.var near) (.int 5)

def nearLower : Expr := .binary .lt (.var near) (.var far)

/-- `!((near>5)||(near<far))`. -/
def neither : Expr := .unary .not (.binary .or nearHigh nearLower)

/-- The clauses are contained though they are no conjuncts; the whole is not contained in itself. -/
theorem neither_contains_parts :
    neither.PlainNames ∧ (ofList [nearHigh, nearLower]).isContainedIn neither = true ∧
      (ofList [neither]).isContainedIn neither = false := by
  have names : neither.PlainNames := by decide +kernel
  refine ⟨names, (isContainedIn_iff_inner names).1.mpr ⟨by decide +kernel, ?_, ?_⟩, ?_⟩
  · decide +kernel
  · decide +kernel
  · rw [Bool.eq_false_iff]
    intro contained
    obtain ⟨-, inner, -⟩ := (isContainedIn_iff_inner names).1.mp contained
    revert inner
    decide +kernel

end Samples

end Core

end Reprise
