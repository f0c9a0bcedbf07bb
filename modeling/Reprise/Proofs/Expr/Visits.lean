import Reprise.Proofs.Expr.Walk

/-!
What a walk does in which order. It gives the answer and the state of the fold, it leaves one answer on
its stack, and it visits the operands of an operation left to right and then the operation, up to the
first visit that is a fault. A fault of a walk is always that of a visit.
-/
set_option autoImplicit false

namespace Reprise

inductive Visit where
  | variable (x : Variable)
  | constant (c : Constant)
  | operation (op : Operator)
deriving DecidableEq

def Expr.visits : Expr → List Visit
  | .var x => [.variable x]
  | .const c => [.constant c]
  | .unary op e => e.visits ++ [.operation (.unary op)]
  | .binary op l r => l.visits ++ (r.visits ++ [.operation (.binary op)])

namespace Visitor

variable {σ β γ : Type}

def noting (v : Visitor σ β) : Visitor (σ × List Visit) β where
  onVariable x s := ((v.onVariable x s.1).1, (v.onVariable x s.1).2, s.2 ++ [.variable x])
  onConstant c s := ((v.onConstant c s.1).1, (v.onConstant c s.1).2, s.2 ++ [.constant c])
  onOperation op answers s :=
    ((v.onOperation op answers s.1).1, (v.onOperation op answers s.1).2, s.2 ++ [.operation op])

/-- The visit can end in this fault and this state. An operation is given as many answers as it has
operands. -/
def Stops (v : Visitor σ β) (f : ExprFault) (s' : σ) : Visit → Prop
  | .variable x => ∃ s, v.onVariable x s = (.error f, s')
  | .constant c => ∃ s, v.onConstant c s = (.error f, s')
  | .operation op =>
    ∃ answers s, answers.length = op.arity ∧ v.onOperation op answers s = (.error f, s')

/-- With an answer all the visits have been made, with a fault those up to the one whose fault it is. -/
def Makes (v : Visitor σ β) (visits : List Visit) (run : Except ExprFault γ × σ) (made : List Visit) :
    Prop :=
  match run with
  | (.ok _, _) => made = visits
  | (.error f, s) =>
    ∃ before last after,
      visits = before ++ last :: after ∧ made = before ++ [last] ∧ v.Stops f s last

variable {v : Visitor σ β} {visits made : List Visit} {f : ExprFault} {s : σ}

theorem Makes.stop {γ' : Type} (h : v.Makes visits ((.error f, s) : Except ExprFault γ × σ) made)
    (more : List Visit) : v.Makes (visits ++ more) ((.error f, s) : Except ExprFault γ' × σ) made := by
  obtain ⟨before, last, after, rfl, rfl, stops⟩ := h
  exact ⟨before, last, after ++ more, by simp, rfl, stops⟩

theorem Makes.after (earlier : List Visit) {run : Except ExprFault γ × σ} (h : v.Makes visits run made) :
    v.Makes (earlier ++ visits) run (earlier ++ made) := by
  rcases run with ⟨_ | a, s⟩
  · obtain ⟨before, last, after, rfl, rfl, stops⟩ := h
    exact ⟨earlier ++ before, last, after, by simp, by simp, stops⟩
  · exact congrArg (earlier ++ ·) h

theorem makes_visit {visit : Visit} {run : Except ExprFault γ × σ}
    (stops : ∀ f, run.1 = .error f → v.Stops f run.2 visit) : v.Makes [visit] run [visit] := by
  rcases run with ⟨f | a, s⟩
  · exact ⟨[], visit, [], rfl, rfl, stops f rfl⟩
  · rfl

theorem makes_operation (v : Visitor σ β) (op : Operator) (answers : List β) (s : σ)
    (arity : answers.length = op.arity) :
    v.Makes [.operation op] (v.onOperation op answers s) [.operation op] :=
  makes_visit fun _ fault => ⟨answers, s, arity, Prod.ext fault rfl⟩

end Visitor

namespace Expr

variable {σ β : Type}

theorem fold_noting (v : Visitor σ β) (e : Expr) (s : σ) (noted : List Visit) :
    ∃ made, e.fold v.noting (s, noted) = ((e.fold v s).1, (e.fold v s).2, noted ++ made) ∧
      v.Makes e.visits (e.fold v s) made := by
  induction e generalizing s noted with
  | var x => exact ⟨_, rfl, Visitor.makes_visit fun _ fault => ⟨s, Prod.ext fault rfl⟩⟩
  | const c => exact ⟨_, rfl, Visitor.makes_visit fun _ fault => ⟨s, Prod.ext fault rfl⟩⟩
  | unary op e ih =>
    obtain ⟨made, noting, makes⟩ := ih s noted
    rw [fold, noting, fold, visits]
    rcases operand : e.fold v s with ⟨f | a, s⟩ <;> rw [operand] at makes
    · exact ⟨made, rfl, makes.stop _⟩
    · have whole : made = e.visits := makes
      subst whole
      have last := v.makes_operation (.unary op) [a] s rfl
      exact ⟨_, by simp [Visitor.noting], last.after e.visits⟩
  | binary op l r ihl ihr =>
    obtain ⟨made, noting, makes⟩ := ihl s noted
    rw [fold, noting, fold, visits]
    rcases left : l.fold v s with ⟨f | a, s⟩ <;> rw [left] at makes
    · exact ⟨made, rfl, makes.stop _⟩
    · have whole : made = l.visits := makes
      subst whole
      obtain ⟨made, noting, makes⟩ := ihr s (noted ++ l.visits)
      simp only [noting]
      rcases right : r.fold v s with ⟨f | b, s⟩ <;> rw [right] at makes
      · exact ⟨l.visits ++ made, by simp, (makes.stop _).after l.visits⟩
      · have whole : made = r.visits := makes
        subst whole
        have last := v.makes_operation (.binary op) [a, b] s rfl
        exact ⟨_, by simp [Visitor.noting], (last.after r.visits).after l.visits⟩

/-- The loop comes to the answer and the state of the fold, with this one answer on its stack. Its visits
are those of the expression in their order, all of them or up to the one whose fault is the answer. -/
theorem walk_folds_in_order (v : Visitor σ β) (e : Expr) (s : σ) :
    work v [.enter e] [] s = ((e.fold v s).1.map fun a => [a], (e.fold v s).2) ∧
    e.walk v s = e.fold v s ∧
    ∃ made, e.walk v.noting (s, []) = ((e.walk v s).1, (e.walk v s).2, made) ∧
      v.Makes e.visits (e.walk v s) made := by
  refine ⟨?_, walk_eq_fold v e s, ?_⟩
  · rw [work_enter]
    rcases e.fold v s with ⟨f | a, s⟩
    · rfl
    · simp only [work]
      rfl
  · rw [walk_eq_fold, walk_eq_fold]
    exact e.fold_noting v s []

example (x : Variable) :
    (Expr.binary .or (.unary .not (.binary .lt (.var x) (.int 5))) (.binary .gt (.int 1) (.var x))).visits =
      [.variable x, .constant (.int 5), .operation (.binary .lt), .operation (.unary .not),
        .constant (.int 1), .variable x, .operation (.binary .gt), .operation (.binary .or)] := rfl

end Expr

end Reprise
