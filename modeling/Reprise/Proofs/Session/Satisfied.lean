import Reprise.Proofs.Session.Reached
import Reprise.Proofs.Solver.Minimise

/-!
Answers with a model. Every entry that is kept has the size of its model, so a model found again is
returned as it was found.
-/
set_option autoImplicit false

namespace Reprise

namespace Session

/-- The size of an entry is that of its model, whose values lie within their bounds. -/
structure GoodModel (entry : Entry Model) : Prop where
  size : entry.size = entry.payload.size
  inBounds : entry.payload.InBounds

theorem said_sat {budget : Nat} {e : Expr} {m : Model}
    (h : said (Solver.bounded budget) e () = .ok (.sat m)) :
    Solver.findModel budget e = .ok (some m) := by
  obtain ⟨outcome, solved, verdict⟩ := bind_eq_ok h
  cases Solver.solve_eq_ok solved with
  | inl found =>
    obtain ⟨m', model, rfl⟩ := found
    cases verdict
    exact model
  | inr refuted =>
    obtain ⟨left, -, -, rfl⟩ := refuted
    cases verdict

theorem size_of_keys {e : Expr} {m : Model} (h : m.assignments.keys = e.vars) :
    m.size = e.vars.length := by
  rw [← h, OrderedMap.keys, List.length_map]
  rfl

theorem yields_goodModel (asked : Expr → Prop) : Yields asked GoodModel fun _ => True where
  model key _ told := by
    obtain ⟨keys, within, -⟩ := Solver.findModel_some (said_sat told)
    exact ⟨(size_of_keys keys).symm, within⟩
  core _ _ _ := trivial

theorem probeModel_some {e : Expr} {reference : Int64} {m : Model}
    (h : probeModel e reference = .ok (some m)) :
    m.assignments.keys = e.vars ∧ m.InBounds ∧ e.satisfies m = .ok true := by
  rw [probeModel] at h
  split at h
  · cases h
  · rename_i within
    simp only at h
    split at h
    · rename_i sat
      cases h
      have pairs := Model.pairs_tabulate e.vars_increasing fun _ => .int reference
      refine ⟨Model.keys_tabulate e.vars_increasing fun _ => .int reference, ?_, sat⟩
      intro p mem
      obtain ⟨v, hv, rfl⟩ := List.mem_map.mp (pairs ▸ mem)
      have admitted : v.admits reference = true := by
        cases admits : v.admits reference with
        | true => rfl
        | false => exact absurd (List.any_eq_true.mpr ⟨v, hv, by rw [admits]; rfl⟩) within
      exact ⟨reference, rfl, admitted⟩
    · cases h
    · cases h
    · cases h

variable {τ : Type} {s : Session τ}

theorem sat_of_grounds {budget : Nat} {e : Expr} {delta : SatDelta} {m : Model} {source : Source}
    (models : ∀ entry ∈ s.models.entries, GoodModel entry)
    (grounds : Grounds (Solver.bounded budget) e () delta s.models s.cores ⟨.sat m, source, delta⟩) :
    e.satisfies m = .ok true ∧ m.InBounds ∧ (source ≠ .modelReuse → m.assignments.keys = e.vars) := by
  cases grounds with
  | probe probed =>
    obtain ⟨keys, within, sat⟩ := probeModel_some probed
    exact ⟨sat, within, fun _ => keys⟩
  | model stored small sat trimmed =>
    have good := models _ stored
    rw [good.size] at small
    rw [Lookup.trim_of_size_le small] at trimmed
    subst trimmed
    exact ⟨sat, good.inBounds, fun other => absurd rfl other⟩
  | oracle told =>
    obtain ⟨keys, within, sat⟩ := Solver.findModel_some (said_sat told)
    exact ⟨sat, within, fun _ => keys⟩

variable [Table τ] [LawfulTable τ]

/-- The very model that is returned satisfies the query, whatever way it was found. -/
theorem model_satisfies (reached : Reached (fun _ => True) s) {budget : Nat} {e : Expr} {m : Model}
    {source : Source} {delta : SatDelta}
    (h : (s.resolve (Solver.bounded budget) e ()).1 = .ok ⟨.sat m, source, delta⟩) :
    e.satisfies m = .ok true := by
  obtain ⟨delta', -, grounds⟩ := resolve_grounds h
  have keeps := reached.keeps (yields_goodModel _)
  cases grounds.satDelta_eq
  exact (sat_of_grounds keeps.models grounds).1

/-- A model returned keeps to the bounds of the variables it has. Unless it was found again these are
the variables of the query; one found again shows that the query can be satisfied within its bounds
if these admit the zeros that stand for the variables it lacks. -/
theorem model_within_bounds (reached : Reached (fun _ => True) s) {budget : Nat} {e : Expr} {m : Model}
    {source : Source} {delta : SatDelta}
    (h : (s.resolve (Solver.bounded budget) e ()).1 = .ok ⟨.sat m, source, delta⟩) :
    e.satisfies m = .ok true ∧ m.InBounds ∧
      (source ≠ .modelReuse → m.assignments.keys = e.vars ∧ e.AssignedBy m) ∧
      ((∀ v ∈ e.vars, m.get? v = none → v.admits 0 = true) → e.Satisfiable) := by
  obtain ⟨delta', -, grounds⟩ := resolve_grounds h
  have keeps := reached.keeps (yields_goodModel _)
  cases grounds.satDelta_eq
  obtain ⟨sat, within, own⟩ := sat_of_grounds keeps.models grounds
  refine ⟨sat, within, fun other => ?_, Expr.satisfiable_of_inBounds within sat⟩
  have keys := own other
  exact ⟨keys, Expr.assignedBy_of_inBounds within fun v mem => keys ▸ mem⟩

section Samples

def width : Variable := ⟨"width", .int, 0, 10⟩

def height : Variable := ⟨"height", .int, 1, 5⟩

def widthFive : Expr := .binary .eq (.var width) (.int 5)

def five : Model := .ofList [(width, .int 5)]

/-- A model kept in the table answers the first query after a restart. -/
theorem restored_model_satisfies :
    let later := opened {} (afterOne widthFive).persist.2.table
    let query : Expr := .binary .gt (.var width) (.int 3)
    (later.resolve (Solver.bounded 100) query ()).1 = .ok ⟨.sat five, .modelReuse, .satisfied 100⟩ ∧
      query.satisfies five = .ok true := by
  intro later query
  have reached : Reached (fun _ => True) later :=
    .restart {} (.persist (reached_afterOne trivial)) (start_eq_ok.mpr ⟨rfl, rfl⟩)
  have found : (later.resolve (Solver.bounded 100) query ()).1 =
      .ok ⟨.sat five, .modelReuse, .satisfied 100⟩ := eq_ok_of_toOption (by decide +kernel)
  exact ⟨found, model_satisfies reached found⟩

/-- A model of another variable answers a query that zero satisfies. -/
theorem reused_model_within_bounds :
    let query : Expr := .binary .ne (.var { height with lower := 0 }) (.int 4)
    ((afterOne widthFive).resolve (Solver.bounded 100) query ()).1 =
        .ok ⟨.sat five, .modelReuse, .satisfied (-10000)⟩ ∧ query.Satisfiable := by
  intro query
  have found : ((afterOne widthFive).resolve (Solver.bounded 100) query ()).1 =
      .ok ⟨.sat five, .modelReuse, .satisfied (-10000)⟩ := eq_ok_of_toOption (by decide +kernel)
  refine ⟨found, (model_within_bounds (reached_afterOne trivial) found).2.2.2 fun v mem _ => ?_⟩
  have same : v = { height with lower := 0 } := by simpa [query, Expr.int] using mem
  rw [same]
  decide

/-- Where the bounds do not admit zero, a model that lacks the variable is returned all the same. -/
theorem reused_model_out_of_bounds :
    ¬ ∀ (s : Session MemoryTable) (budget : Nat) (e : Expr) (m : Model) (source : Source)
      (delta : SatDelta), Reached (fun _ => True) s →
      (s.resolve (Solver.bounded budget) e ()).1 = .ok ⟨.sat m, source, delta⟩ → e.Satisfiable := by
  intro claim
  have found : ((afterOne widthFive).resolve (Solver.bounded 100)
      (.binary .eq (.var height) (.int 0)) ()).1 = .ok ⟨.sat five, .modelReuse, .satisfied 0⟩ :=
    eq_ok_of_toOption (by decide +kernel)
  obtain ⟨m, -, assigned, sat⟩ := claim _ _ _ _ _ _ (reached_afterOne trivial) found
  have within : height.admits (m.intView height) = true := assigned.admits (by simp) (by decide)
  have zero : m.intView height = 0 := by
    rw [Expr.satisfies_eq_ok_true, Expr.Holds, Expr.evaluateWith_binary, Expr.evaluateWith_var,
      Expr.int, Expr.evaluateWith_const] at sat
    simpa [Constant.asInt, Except.bind, BinaryOp.apply, BinaryOp.onMatching] using sat
  rw [zero] at within
  cases within

end Samples

end Session

end Reprise
