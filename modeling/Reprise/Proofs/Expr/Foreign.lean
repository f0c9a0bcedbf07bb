import Reprise.Proofs.Expr.Bounds
import Reprise.Proofs.Expr.Visits

/-!
Variables foreign to a constraint. Its value, its fault and its verdict depend on nothing but the whole
numbers that a model gives to the variables collected from it. Assignments to other variables can be
added, overwritten, cut off or left out.
-/
set_option autoImplicit false

namespace Reprise

namespace Model

def AgreesOn (m : Model) (vars : List Variable) (m' : Model) : Prop :=
  ∀ v ∈ vars, m.intView v = m'.intView v

instance (m : Model) (vars : List Variable) (m' : Model) : Decidable (m.AgreesOn vars m') :=
  inferInstanceAs (Decidable (∀ v ∈ vars, _))

/-- The model with more assignments, each in place of an earlier one for its variable. -/
def extended (m : Model) (more : List (Variable × Constant)) : Model :=
  more.foldl (fun m p => m.insert p.1 p.2) m

def projected (m : Model) (keep : Variable → Bool) : Model :=
  ⟨m.pairs.filter fun p => keep p.1, m.assignments.increasing.filter _⟩

variable {m m' m'' : Model} {vars : List Variable}

theorem AgreesOn.trans (h : m.AgreesOn vars m') (h' : m'.AgreesOn vars m'') : m.AgreesOn vars m'' :=
  fun v mem => (h v mem).trans (h' v mem)

theorem agreesOn_insert {v : Variable} (foreign : v ∉ vars) (value : Constant) :
    (m.insert v value).AgreesOn vars m := by
  intro w mem
  have apart : w ≠ v := fun same => foreign (same ▸ mem)
  rw [intView, intView, get?_insert_of_ne m apart]

theorem agreesOn_extended {more : List (Variable × Constant)} (foreign : ∀ p ∈ more, p.1 ∉ vars) :
    (m.extended more).AgreesOn vars m := by
  -- An assignment added here may give way to a later one; both are to foreign variables.
  induction more generalizing m with
  | nil => exact fun _ _ => rfl
  | cons p more ih =>
    have first : (m.insert p.1 p.2).AgreesOn vars m :=
      agreesOn_insert (foreign p List.mem_cons_self) p.2
    have others : ((m.insert p.1 p.2).extended more).AgreesOn vars (m.insert p.1 p.2) :=
      ih fun q mem => foreign q (List.mem_cons_of_mem p mem)
    exact others.trans first

theorem agreesOn_of_mem_iff (same : ∀ p, p.1 ∈ vars → (p ∈ m.pairs ↔ p ∈ m'.pairs)) :
    m.AgreesOn vars m' := by
  intro v mem
  have assigned : m.get? v = m'.get? v := Option.ext fun c => by
    rw [get?_eq_some_iff, get?_eq_some_iff, same (v, c) mem]
  rw [intView, intView, assigned]

theorem agreesOn_trimmed {n : Nat} (foreign : ∀ p ∈ m.pairs.drop n, p.1 ∉ vars) :
    (m.trimmed n).AgreesOn vars m := by
  refine agreesOn_of_mem_iff fun p mem => ⟨List.mem_of_mem_take, fun assigned => ?_⟩
  rw [← List.take_append_drop n m.pairs] at assigned
  cases List.mem_append.mp assigned with
  | inl kept => exact kept
  | inr cut => exact absurd mem (foreign p cut)

theorem agreesOn_projected {keep : Variable → Bool} (own : ∀ v ∈ vars, keep v = true) :
    (m.projected keep).AgreesOn vars m := by
  refine agreesOn_of_mem_iff fun p mem => ⟨fun kept => ?_, fun assigned => ?_⟩
  · exact (List.mem_filter.mp kept).1
  · exact List.mem_filter.mpr ⟨assigned, own p.1 mem⟩

end Model

namespace Expr

/-- One value or fault under both models, and one verdict or fault as a constraint. -/
structure SameUnder (e : Expr) (m m' : Model) : Prop where
  value : e.evaluate m = e.evaluate m'
  verdict : e.satisfies m = e.satisfies m'

variable {e : Expr} {m m' : Model}

theorem sameUnder_of_agreesOn (agree : m.AgreesOn e.vars m') : e.SameUnder m m' := by
  have value : e.evaluate m = e.evaluate m' := evaluateWith_congr agree
  exact ⟨value, congrArg truth value⟩

/-- A variable on its own tells the numbers it is given apart. -/
theorem agreesOn_of_sameUnder {vars : List Variable}
    (same : ∀ part : Expr, (∀ v ∈ part.vars, v ∈ vars) → part.SameUnder m m') : m.AgreesOn vars m' := by
  intro v mem
  have alone : ∀ w ∈ (Expr.var v).vars, w ∈ vars := by simp [mem]
  have value := (same (.var v) alone).value
  rw [evaluate, evaluate, evaluateWith_var, evaluateWith_var] at value
  exact Value.int.inj (Except.ok.inj value)

theorem variable_mem_visits {x : Variable} : .variable x ∈ e.visits ↔ x ∈ e.vars := by
  induction e with
  | var y => simp [visits]
  | const c => simp [visits]
  | unary op e ih => simp [visits, ih]
  | binary op l r ihl ihr => simp [visits, ihl, ihr]

/-- The variables collected are those that a walk visits. Models that give them the same whole numbers
give one value, fault and verdict, and only such models do so for every expression over these variables.
So nothing changes with assignments to foreign variables, whether they are added, cut off at the end of
the model or left out. -/
theorem evaluate_decided_by_vars (e : Expr) :
    (∀ x, x ∈ e.vars ↔ .variable x ∈ e.visits) ∧
    (∀ m m' : Model, m.AgreesOn e.vars m' → e.SameUnder m m') ∧
    (∀ m m' : Model, (∀ part : Expr, (∀ v ∈ part.vars, v ∈ e.vars) → part.SameUnder m m') →
      m.AgreesOn e.vars m') ∧
    ∀ m : Model,
      (∀ more : List (Variable × Constant), (∀ p ∈ more, p.1 ∉ e.vars) →
        e.SameUnder (m.extended more) m) ∧
      (∀ n, (∀ p ∈ m.pairs.drop n, p.1 ∉ e.vars) → e.SameUnder (m.trimmed n) m) ∧
      ∀ keep : Variable → Bool, (∀ v ∈ e.vars, keep v = true) → e.SameUnder (m.projected keep) m := by
  refine ⟨fun x => variable_mem_visits.symm, fun m m' => sameUnder_of_agreesOn,
    fun m m' => agreesOn_of_sameUnder, fun m => ⟨fun more foreign => ?_, fun n foreign => ?_,
      fun keep own => ?_⟩⟩
  · exact sameUnder_of_agreesOn (Model.agreesOn_extended foreign)
  · exact sameUnder_of_agreesOn (Model.agreesOn_trimmed foreign)
  · exact sameUnder_of_agreesOn (Model.agreesOn_projected own)

section Samples

def days : Variable := ⟨"days", .int, 0, 31⟩

def litres : Variable := ⟨"litres", .int, 0, 900⟩

/-- Another variable: the name is that of `litres`, the bounds are not. -/
def litresOfAll : Variable := ⟨"litres", .int, 0, 9000⟩

def sparing : Expr := .binary .le (.binary .div (.var litres) (.var days)) (.int 40)

def metered : Model := .ofList [(days, .int 7), (litres, .int 210), (litresOfAll, .int 8000)]

/-- What all use counts neither when it is changed nor when it is gone. Where days are given as a real it
is the same as without them. -/
theorem sparing_whatever_all_use :
    sparing.satisfies (metered.extended [(litresOfAll, .int 0)]) = .ok true ∧
    sparing.satisfies (metered.trimmed 2) = .ok true ∧
    sparing.satisfies (metered.projected fun v => v = days || v = litres) = .ok true ∧
    sparing.evaluate (.ofList [(days, .real 0), (litres, .int 210)]) =
      .error (.divisionByZero (.binary .div)) := by
  obtain ⟨-, same, -, foreign⟩ := sparing.evaluate_decided_by_vars
  obtain ⟨extended, trimmed, projected⟩ := foreign metered
  have sat : sparing.satisfies metered = .ok true := eq_ok_of_toOption (by decide +kernel)
  have no_days : (Model.ofList [(litres, .int 210)]).intView days = 0 := by decide +kernel
  have without_days : sparing.evaluate (.ofList [(litres, .int 210)]) =
      .error (.divisionByZero (.binary .div)) := by
    rw [evaluate, sparing, evaluateWith_binary, evaluateWith_binary, evaluateWith_var, evaluateWith_var,
      no_days]
    rfl
  refine ⟨?_, ?_, ?_, ?_⟩
  · exact (extended [(litresOfAll, .int 0)] (by decide +kernel)).verdict.trans sat
  · exact (trimmed 2 (by decide +kernel)).verdict.trans sat
  · exact (projected _ (by decide +kernel)).verdict.trans sat
  · exact (same _ (.ofList [(litres, .int 210)]) (by decide +kernel)).value.trans without_days

end Samples

end Expr

end Reprise
