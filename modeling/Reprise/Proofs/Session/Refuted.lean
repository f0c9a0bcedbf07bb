import Reprise.Proofs.Expr.Reading
import Reprise.Proofs.Session.Reached
import Reprise.Proofs.Solver.Minimise

/-!
Answers with a core. What the oracle refutes holds nowhere. A core found again is contradictory, and
refutes a query that has its clauses among the conjuncts; elsewhere in the query, as below a negation,
the texts of the clauses say nothing.
-/
set_option autoImplicit false

namespace Reprise

namespace Expr

def Distinct (e : Expr) : Prop :=
  ∀ c ∈ e.conjuncts, ∀ d ∈ e.conjuncts, c.canonical = d.canonical → c = d

instance (e : Expr) : Decidable e.Distinct :=
  inferInstanceAs (Decidable (∀ c ∈ e.conjuncts, ∀ d ∈ e.conjuncts, _))

/-- Names are told from operators, from numbers and from each other. -/
structure NamesTell (e : Expr) : Prop where
  legible : e.LegibleNames
  noNumerals : e.NoNumerals
  apart : ∀ v ∈ e.vars, ∀ w ∈ e.vars, v.name = w.name → v = w

/-- The clause is a conjunct of the query or, where the names tell, has the text of one. -/
def HasConjunct (e clause : Expr) : Prop :=
  clause ∈ e.conjuncts ∨ e.NamesTell ∧ ∃ c ∈ e.conjuncts, clause.canonical = c.canonical

theorem stands_of_hasConjunct {e clause : Expr} {read : Variable → Int64} (holds : e.Holds read)
    (vars : ∀ v ∈ clause.vars, v ∈ e.vars) (h : e.HasConjunct clause) : clause.Stands read := by
  have conjuncts := holds_iff_conjuncts.mp holds
  cases h with
  | inl conjunct => exact Or.inl (conjuncts clause conjunct)
  | inr by_text =>
    obtain ⟨names, c, mem, same⟩ := by_text
    have vars' : ∀ v ∈ c.vars, v ∈ e.vars := fun v hv => mem_vars_iff_conjuncts.mpr ⟨c, mem, hv⟩
    have agree : NamesAgree read clause c := by
      intro v hv w hw name
      rw [names.apart v (vars v hv) w (vars' w hw) name]
    exact stands_of_canonical (fun v hv => names.legible v (vars v hv))
      (fun v hv => names.legible v (vars' v hv)) (fun v hv => names.noNumerals v (vars v hv))
      (fun v hv => names.noNumerals v (vars' v hv)) same agree (conjuncts c mem)

end Expr

namespace Session

/-- The clauses contradict each other over whole numbers. -/
structure SoundCore (entry : Entry Core) : Prop where
  contradictory : Solver.Contradictory entry.payload.clauses
  not_real : ∀ k ∈ entry.payload.clauses, ∀ v ∈ k.vars, v.sort ≠ .real

theorem said_unsat {budget : Nat} {e : Expr} {c : Core}
    (h : said (Solver.bounded budget) e () = .ok (.unsat c)) :
    Solver.findModel budget e = .ok none ∧
      ∃ left, Solver.neededClauses budget e = .ok left ∧ c = Core.ofList left := by
  obtain ⟨outcome, solved, verdict⟩ := bind_eq_ok h
  cases Solver.solve_eq_ok solved with
  | inl found =>
    obtain ⟨m, -, rfl⟩ := found
    cases verdict
  | inr refuted =>
    obtain ⟨left, none_found, needed, rfl⟩ := refuted
    cases verdict
    exact ⟨none_found, left, needed, rfl⟩

theorem soundCore_of_said {budget : Nat} {e : Expr} {c : Core} {key : Binary64} {size : Nat}
    (distinct : e.Distinct) (h : said (Solver.bounded budget) e () = .ok (.unsat c)) :
    SoundCore ⟨key, size, c⟩ := by
  obtain ⟨none_found, left, needed, rfl⟩ := said_unsat h
  obtain ⟨refuted, kept_conjuncts⟩ := Solver.neededClauses_refuted none_found needed
  have conjuncts : ∀ l ∈ left, l ∈ e.conjuncts := fun l mem => (kept_conjuncts l mem).1
  -- distinct texts keep every clause that is needed
  have tell : Core.TextsTell left := fun k hk l hl => distinct k (conjuncts k hk) l (conjuncts l hl)
  have kept : ∀ l ∈ left, l ∈ (Core.ofList left).clauses := fun l mem => Core.mem_ofList tell mem
  refine ⟨fun read within stand => ?_, fun k stored v hv => ?_⟩
  · exact refuted.contradictory read (fun l mem => within l (kept l mem)) fun l mem => stand l (kept l mem)
  · have conjunct := conjuncts k (Core.mem_clauses_ofList stored)
    exact (Solver.findModel_none none_found).1 v (Expr.mem_vars_iff_conjuncts.mpr ⟨k, conjunct, hv⟩)

theorem yields_soundCore : Yields Expr.Distinct (fun _ => True) SoundCore where
  model _ _ _ := trivial
  core _ distinct told := soundCore_of_said distinct told

theorem unsatisfiable_of_said {budget : Nat} {e : Expr} {c : Core}
    (h : said (Solver.bounded budget) e () = .ok (.unsat c)) : e.Unsatisfiable := by
  obtain ⟨not_real, everywhere⟩ := Solver.findModel_none (said_unsat h).1
  intro m assigned sat
  have fails := everywhere m.intView fun v mem => assigned.admits mem (not_real v mem)
  exact Expr.not_fails_of_stands (Or.inl (Expr.satisfies_eq_ok_true.mp sat)) fails

theorem unsatisfiable_of_contained {e : Expr} {entry : Entry Core} (sound : SoundCore entry)
    (contained : entry.payload.isContainedIn e = true)
    (conjuncts : ∀ k ∈ entry.payload.clauses, e.HasConjunct k) : e.Unsatisfiable := by
  obtain ⟨-, -, vars⟩ := Core.isContainedIn_iff.mp contained
  intro m assigned sat
  have holds := Expr.satisfies_eq_ok_true.mp sat
  refine sound.contradictory m.intView ?_ ?_
  · intro k mem v hv
    exact assigned.admits (vars k mem v hv) (sound.not_real k mem v hv)
  · intro k mem
    exact Expr.stands_of_hasConjunct holds (vars k mem) (conjuncts k mem)

variable {τ : Type} [Table τ] [LawfulTable τ] {s : Session τ}

/-- A query answered with a core cannot hold: never if the oracle answered, and by a core found again
if its clauses are conjuncts of the query. -/
theorem refuted_query_unsatisfiable {budget : Nat} {e : Expr} {c : Core} {source : Source}
    {delta : SatDelta}
    (h : (s.resolve (Solver.bounded budget) e ()).1 = .ok ⟨.unsat c, source, delta⟩) :
    source = .oracle ∧ e.Unsatisfiable ∨
      source = .coreReuse ∧ c.isContainedIn e = true ∧
        (Reached Expr.Distinct s → Solver.Contradictory c.clauses ∧
          ((∀ k ∈ c.clauses, e.HasConjunct k) → e.Unsatisfiable)) := by
  obtain ⟨delta', -, grounds⟩ := resolve_grounds h
  cases grounds with
  | oracle told => exact Or.inl ⟨rfl, unsatisfiable_of_said told⟩
  | core stored same contained =>
    subst same
    refine Or.inr ⟨rfl, contained, fun reached => ?_⟩
    have sound := (reached.keeps yields_soundCore).cores _ stored
    exact ⟨sound.contradictory, unsatisfiable_of_contained sound contained⟩

section Samples

def depth : Variable := ⟨"depth", .int, 0, 10⟩

def depthNegative : Expr := .binary .lt (.var depth) (.int 0)

/-- The core of one query refutes another that has its clause among the conjuncts. -/
theorem conjunct_refuted :
    let query : Expr := .binary .and depthNegative (.binary .lt (.var depth) (.int 20))
    ((afterOne depthNegative).resolve (Solver.bounded 100) query ()).1 =
        .ok ⟨.unsat (.ofList [depthNegative]), .coreReuse, .satisfied (-10000)⟩ ∧
      query.Unsatisfiable := by
  intro query
  have found : ((afterOne depthNegative).resolve (Solver.bounded 100) query ()).1 =
      .ok ⟨.unsat (.ofList [depthNegative]), .coreReuse, .satisfied (-10000)⟩ :=
    eq_ok_of_toOption (by decide +kernel)
  have reached : Reached Expr.Distinct (afterOne depthNegative) :=
    reached_afterOne (by decide +kernel)
  cases refuted_query_unsatisfiable found with
  | inl asked => exact absurd asked.1 (by decide)
  | inr reused =>
    refine ⟨found, (reused.2.2 reached).2 fun k mem => Or.inl ?_⟩
    rw [List.mem_singleton.mp (Core.mem_clauses_ofList mem)]
    decide +kernel

/-- Below a negation the clause of a core refutes nothing, and the query is refused all the same. -/
theorem negated_core_refuted :
    ¬ ∀ (s : Session MemoryTable) (budget : Nat) (e : Expr) (c : Core) (source : Source)
      (delta : SatDelta), Reached (fun _ => True) s →
      (s.resolve (Solver.bounded budget) e ()).1 = .ok ⟨.unsat c, source, delta⟩ →
        e.Unsatisfiable := by
  intro claim
  have found : ((afterOne depthNegative).resolve (Solver.bounded 100) (.unary .not depthNegative) ()).1
      = .ok ⟨.unsat (.ofList [depthNegative]), .coreReuse, .satisfied (-10000)⟩ :=
    eq_ok_of_toOption (by decide +kernel)
  have refuted := claim _ _ _ _ _ _ (reached_afterOne trivial) found
  have zero : (Expr.unary .not depthNegative).satisfies (.ofList [(depth, .int 0)]) = .ok true :=
    eq_ok_of_toOption (by decide +kernel)
  refine refuted (.ofList [(depth, .int 0)]) (fun v mem => ?_) zero
  have same : v = depth := by simpa [depthNegative, Expr.int] using mem
  rw [same]
  exact ⟨.int 0, by decide, by decide⟩

end Samples

end Session

end Reprise
