import Reprise.Proofs.Expr.Eval

/-!
Taking a conjunction apart and putting it together again. A constraint is true exactly where all its
conjuncts are, and where it fails one of them fails.
-/
set_option autoImplicit false

namespace Reprise

namespace Expr

def spine : Expr → List Expr
  | .binary .and l r => l.spine ++ r.spine
  | e => [e]

theorem collectConjuncts_eq (pending found : List Expr) :
    collectConjuncts pending found = found.reverse ++ pending.flatMap spine := by
  fun_induction collectConjuncts pending found with
  | case1 found => simp
  | case2 l r pending found ih => simp [ih, spine]
  | case3 e pending found not_and ih =>
    have alone : e.spine = [e] := by
      unfold spine
      split
      · exact absurd rfl (not_and _ _)
      · rfl
    simp [ih, alone]

theorem conjuncts_eq_spine (e : Expr) : e.conjuncts = e.spine := by
  simp [conjuncts, collectConjuncts_eq]

theorem spine_ne_nil (e : Expr) : e.spine ≠ [] := by
  fun_induction spine e with
  | case1 l r ihl ihr => exact List.append_ne_nil_of_left_ne_nil ihl _
  | case2 e => exact List.cons_ne_nil _ _

theorem conjuncts_ne_nil (e : Expr) : e.conjuncts ≠ [] := by
  rw [conjuncts_eq_spine]
  exact e.spine_ne_nil

theorem eq_of_conjuncts {e c : Expr} (h : e.conjuncts = [c]) : c = e := by
  rw [conjuncts_eq_spine] at h
  unfold spine at h
  split at h
  · rename_i l r
    have left := List.length_pos_iff.mpr l.spine_ne_nil
    have right := List.length_pos_iff.mpr r.spine_ne_nil
    have single := congrArg List.length h
    rw [List.length_append, List.length_singleton] at single
    omega
  · exact (List.singleton_inj.mp h).symm

variable {read : Variable → Int64}

theorem holds_iff_conjuncts {e : Expr} : e.Holds read ↔ ∀ c ∈ e.conjuncts, c.Holds read := by
  rw [conjuncts_eq_spine]
  fun_induction spine e with
  | case1 l r ihl ihr =>
    rw [holds_and, ihl, ihr]
    simp only [List.mem_append, or_imp, forall_and]
  | case2 e => simp

theorem mem_vars_iff_conjuncts {e : Expr} {v : Variable} :
    v ∈ e.vars ↔ ∃ c ∈ e.conjuncts, v ∈ c.vars := by
  rw [conjuncts_eq_spine]
  fun_induction spine e with
  | case1 l r ihl ihr =>
    rw [mem_vars_binary, ihl, ihr]
    simp only [List.mem_append, or_and_right, exists_or]
  | case2 e => simp

theorem exists_conjunct_fails {e : Expr} (h : e.Fails read) : ∃ c ∈ e.conjuncts, c.Fails read := by
  rw [conjuncts_eq_spine]
  fun_induction spine e with
  | case1 l r ihl ihr =>
    cases fails_and h with
    | inl left =>
      obtain ⟨c, mem, fails⟩ := ihl left
      exact ⟨c, List.mem_append_left _ mem, fails⟩
    | inr right =>
      obtain ⟨c, mem, fails⟩ := ihr right
      exact ⟨c, List.mem_append_right _ mem, fails⟩
  | case2 e => exact ⟨e, List.mem_cons_self, h⟩

theorem exists_fails_of_foldl_and {first : Expr} {rest : List Expr}
    (h : (rest.foldl (.binary .and) first).Fails read) : ∃ c ∈ first :: rest, c.Fails read := by
  induction rest generalizing first with
  | nil => exact ⟨first, List.mem_cons_self, h⟩
  | cons c rest ih =>
    obtain ⟨d, mem, fails⟩ := ih h
    cases mem with
    | head =>
      cases fails_and fails with
      | inl left => exact ⟨first, List.mem_cons_self, left⟩
      | inr right => exact ⟨c, List.mem_cons_of_mem _ List.mem_cons_self, right⟩
    | tail _ later => exact ⟨d, List.mem_cons_of_mem _ (List.mem_cons_of_mem _ later), fails⟩

theorem holds_of_foldl_and {first : Expr} {rest : List Expr}
    (h : (rest.foldl (.binary .and) first).Holds read) : ∀ c ∈ first :: rest, c.Holds read := by
  induction rest generalizing first with
  | nil => simpa using h
  | cons c rest ih =>
    have all := ih h
    obtain ⟨holds_first, holds_c⟩ := holds_and.mp (all _ List.mem_cons_self)
    intro d mem
    cases mem with
    | head => exact holds_first
    | tail _ later =>
      cases later with
      | head => exact holds_c
      | tail _ last => exact all d (List.mem_cons_of_mem _ last)

theorem holds_foldl_and {first : Expr} {rest : List Expr} (h : ∀ c ∈ first :: rest, c.Holds read) :
    (rest.foldl (.binary .and) first).Holds read := by
  induction rest generalizing first with
  | nil => exact h first List.mem_cons_self
  | cons c rest ih =>
    refine ih fun d mem => ?_
    cases mem with
    | head => exact holds_and.mpr ⟨h first List.mem_cons_self, h c (by simp)⟩
    | tail _ later => exact h d (List.mem_cons_of_mem _ (List.mem_cons_of_mem _ later))

theorem mem_vars_foldl_and {v : Variable} (first : Expr) (rest : List Expr) :
    v ∈ (rest.foldl (.binary .and) first).vars ↔ v ∈ first.vars ∨ ∃ c ∈ rest, v ∈ c.vars := by
  induction rest generalizing first with
  | nil => simp
  | cons c rest ih =>
    rw [List.foldl_cons, ih, mem_vars_binary, or_assoc]
    simp only [List.mem_cons, exists_eq_or_imp]

theorem conjunction_eq_none {clauses : List Expr} : conjunction clauses = none ↔ clauses = [] := by
  cases clauses <;> simp [conjunction]

theorem exists_fails_of_conjunction {clauses : List Expr} {e : Expr}
    (h : conjunction clauses = some e) (fails : e.Fails read) : ∃ c ∈ clauses, c.Fails read := by
  cases clauses with
  | nil => cases h
  | cons first rest =>
    cases h
    exact exists_fails_of_foldl_and fails

theorem holds_of_conjunction {clauses : List Expr} {e : Expr} (h : conjunction clauses = some e)
    (holds : e.Holds read) : ∀ c ∈ clauses, c.Holds read := by
  cases clauses with
  | nil => exact nofun
  | cons first rest =>
    cases h
    exact holds_of_foldl_and holds

theorem holds_conjunction {clauses : List Expr} {e : Expr} (h : conjunction clauses = some e)
    (holds : ∀ c ∈ clauses, c.Holds read) : e.Holds read := by
  cases clauses with
  | nil => cases h
  | cons first rest =>
    cases h
    exact holds_foldl_and holds

theorem mem_vars_conjunction {clauses : List Expr} {e : Expr} (h : conjunction clauses = some e)
    {v : Variable} : v ∈ e.vars ↔ ∃ c ∈ clauses, v ∈ c.vars := by
  cases clauses with
  | nil => cases h
  | cons first rest =>
    cases h
    rw [mem_vars_foldl_and]
    simp only [List.mem_cons, exists_eq_or_imp]

end Expr

end Reprise
