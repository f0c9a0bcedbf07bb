import Reprise.Proofs.Answer.Containment
import Reprise.Proofs.Session.Refuted

/-!
Whether a core is found in the very query that it refutes. Its clauses are looked for in parentheses,
as they stand in a conjunction; a query that is no conjunction does not contain its own core.
-/
set_option autoImplicit false

namespace Reprise

namespace Session

variable {budget : Nat} {e : Expr} {c : Core}

/-- The core of a query consists of conjuncts that were needed to refute it, and is not empty. -/
structure OwnCore (e : Expr) (c : Core) : Prop where
  nonempty : c.clauses ≠ []
  conjuncts : ∀ k ∈ c.clauses, k ∈ e.conjuncts
  needed : ∀ k ∈ c.clauses, Solver.Needed k

theorem ownCore_of_said (h : said (Solver.bounded budget) e () = .ok (.unsat c)) : OwnCore e c := by
  obtain ⟨none_found, left, needed, rfl⟩ := said_unsat h
  obtain ⟨refuted, kept⟩ := Solver.neededClauses_refuted none_found needed
  have listed : ∀ k ∈ (Core.ofList left).clauses, k ∈ left := fun k mem => Core.mem_clauses_ofList mem
  refine ⟨fun empty => ?_, fun k mem => (kept k (listed k mem)).1, fun k mem => (kept k (listed k mem)).2⟩
  cases left with
  | nil =>
    obtain ⟨k, mem, -⟩ := refuted (fun _ => 0) nofun
    cases mem
  | cons k rest =>
    have first : k ∈ k :: rest := List.mem_cons_self
    obtain ⟨clause, stored, -⟩ := Core.exists_clause_of_mem first
    rw [empty] at stored
    cases stored

namespace OwnCore

variable (own : OwnCore e c)

include own

theorem not_contained (single : e.isConjunction = false) : c.isContainedIn e = false := by
  rw [Bool.eq_false_iff]
  intro contained
  obtain ⟨-, texts, -⟩ := Core.isContainedIn_iff_parenthesised.mp contained
  obtain ⟨k, rest, clauses⟩ := List.exists_cons_of_ne_nil own.nonempty
  have mem : k ∈ c.clauses := clauses ▸ List.mem_cons_self
  have conjunct := own.conjuncts k mem
  rw [Expr.conjuncts_of_not_conjunction single, List.mem_singleton] at conjunct
  exact e.not_parenthesised_infix_self (conjunct ▸ texts k mem)

theorem contained (conjunction : e.isConjunction = true)
    (operations : ∀ k ∈ c.clauses, k.isOperation = true) : c.isContainedIn e = true :=
  Core.isContainedIn_of_conjuncts conjunction own.nonempty fun k mem =>
    ⟨own.conjuncts k mem, operations k mem⟩

theorem operations_of_domains (domains : ∀ v ∈ e.vars, v.domainSize ≠ 0) :
    ∀ k ∈ c.clauses, k.isOperation = true := by
  intro k mem
  cases kind : k.isOperation with
  | true => rfl
  | false =>
    obtain ⟨v, hv, empty⟩ := (own.needed k mem).domain_of_leaf kind
    exact absurd empty (domains v (Expr.mem_vars_iff_conjuncts.mpr ⟨k, own.conjuncts k mem, hv⟩))

theorem operations_of_contained (names : e.LegibleNames) (contained : c.isContainedIn e = true) :
    ∀ k ∈ c.clauses, k.isOperation = true := by
  intro k mem
  obtain ⟨-, texts, vars⟩ := Core.isContainedIn_iff_parenthesised.mp contained
  cases kind : k.isOperation with
  | true => rfl
  | false =>
    obtain ⟨v, hv, -⟩ := (own.needed k mem).domain_of_leaf kind
    cases k with
    | var w => exact absurd (texts _ mem) (Expr.not_name_infix names (vars _ mem w (by simp)))
    | const a => simp at hv
    | unary op k => cases kind
    | binary op l r => cases kind

theorem contained_iff (names : e.LegibleNames) : c.isContainedIn e = true ↔
    e.isConjunction = true ∧ ∀ k ∈ c.clauses, k.isOperation = true := by
  refine ⟨fun contained => ⟨?_, own.operations_of_contained names contained⟩, fun h => own.contained h.1 h.2⟩
  cases single : e.isConjunction with
  | true => rfl
  | false =>
    rw [own.not_contained single] at contained
    cases contained

end OwnCore

end Session

end Reprise
