import Reprise.Proofs.Expr.Parentheses
import Reprise.Proofs.Expr.Places

/-!
What is kept when a constraint is taken apart into its conjuncts and put together again: the parts, their
order, and what the constraint decides.
-/
set_option autoImplicit false

namespace Reprise

namespace Expr

/-- The turns lead through conjunctions only, to a node that is none. -/
structure EndsSpine (e : Expr) (turns : List Bool) (c : Expr) : Prop where
  here : e.at? turns = some c
  stops : c.isConjunction = false
  through : ∀ above, above <+: turns → above ≠ turns → ∃ l r, e.at? above = some (.binary .and l r)

theorem endsSpine_root {e c : Expr} (h : e.isConjunction = false) {turns : List Bool} :
    e.EndsSpine turns c ↔ (turns, c) = ([], e) := by
  constructor
  · rintro ⟨here, stops, through⟩
    cases turns with
    | nil => rw [Option.some.inj here]
    | cons turn turns =>
      obtain ⟨l, r, root⟩ := through [] List.nil_prefix (List.cons_ne_nil _ _).symm
      obtain rfl := Option.some.inj root
      cases h
  · rintro same
    obtain ⟨rfl, rfl⟩ := Prod.mk.inj same
    exact ⟨rfl, h, fun above prefix_nil other => absurd (List.prefix_nil.mp prefix_nil) other⟩

theorem endsSpine_turn {l r n c : Expr} {turn : Bool} {turns : List Bool}
    (operand : (Expr.binary .and l r).operand? turn = some n) :
    (Expr.binary .and l r).EndsSpine (turn :: turns) c ↔ n.EndsSpine turns c := by
  have below (more : List Bool) : (Expr.binary .and l r).at? (turn :: more) = n.at? more := by
    rw [at?, operand, Option.bind_some]
  constructor
  · rintro ⟨here, stops, through⟩
    refine ⟨(below turns).symm.trans here, stops, fun above earlier other => ?_⟩
    rw [← below]
    exact through (turn :: above) (List.cons_prefix_cons.mpr ⟨rfl, earlier⟩) (by simpa using other)
  · rintro ⟨here, stops, through⟩
    refine ⟨(below turns).trans here, stops, fun above earlier other => ?_⟩
    cases above with
    | nil => exact ⟨l, r, rfl⟩
    | cons first above =>
      obtain ⟨rfl, before⟩ := List.cons_prefix_cons.mp earlier
      rw [below]
      exact through above before (by simpa using other)

theorem not_endsSpine_nil {l r c : Expr} : ¬ (Expr.binary .and l r).EndsSpine [] c := by
  rintro ⟨here, stops, -⟩
  obtain rfl := Option.some.inj here
  cases stops

def placedSpine : Expr → List (List Bool × Expr)
  | .binary .and l r =>
    (l.placedSpine.map fun p => (false :: p.1, p.2)) ++ (r.placedSpine.map fun p => (true :: p.1, p.2))
  | e => [([], e)]

theorem map_snd_placedSpine (e : Expr) : e.placedSpine.map Prod.snd = e.conjuncts := by
  rw [conjuncts_eq_spine]
  fun_induction spine e with
  | case1 l r ihl ihr =>
    rw [placedSpine, List.map_append, List.map_map, List.map_map, ← ihl, ← ihr]
    rfl
  | case2 e not_and =>
    have alone : e.placedSpine = [([], e)] := by
      unfold placedSpine
      split
      · exact absurd rfl (not_and _ _)
      · rfl
    rw [alone]
    rfl

theorem mem_placedSpine {e c : Expr} {turns : List Bool} :
    (turns, c) ∈ e.placedSpine ↔ e.EndsSpine turns c := by
  fun_induction placedSpine e generalizing turns with
  | case1 l r ihl ihr =>
    cases turns with
    | nil => simp [not_endsSpine_nil]
    | cons turn turns =>
      cases turn with
      | false =>
        have left : (Expr.binary .and l r).operand? false = some l := rfl
        simp [endsSpine_turn left, ihl]
      | true =>
        have right : (Expr.binary .and l r).operand? true = some r := rfl
        simp [endsSpine_turn right, ihr]
  | case2 e not_and =>
    have stops : e.isConjunction = false := by
      refine Bool.eq_false_iff.mpr fun conjunction => ?_
      obtain ⟨l, r, rfl⟩ := isConjunction_iff.mp conjunction
      exact not_and l r rfl
    rw [List.mem_singleton, endsSpine_root stops]

theorem pairwise_placedSpine (e : Expr) : e.placedSpine.Pairwise fun p q => p.1 < q.1 := by
  fun_induction placedSpine e with
  | case1 l r ihl ihr =>
    refine List.pairwise_append.mpr ⟨?_, ?_, ?_⟩
    · exact List.pairwise_map.mpr (ihl.imp fun before => List.cons_lt_cons_iff.mpr (Or.inr ⟨rfl, before⟩))
    · exact List.pairwise_map.mpr (ihr.imp fun before => List.cons_lt_cons_iff.mpr (Or.inr ⟨rfl, before⟩))
    · intro p left q right
      obtain ⟨p, -, rfl⟩ := List.mem_map.mp left
      obtain ⟨q, -, rfl⟩ := List.mem_map.mp right
      exact List.cons_lt_cons_iff.mpr (Or.inl (by decide))
  | case2 e => exact List.pairwise_singleton _ _

theorem conjuncts_foldl_and (first : Expr) (rest : List Expr) :
    (rest.foldl (.binary .and) first).conjuncts = first.conjuncts ++ rest.flatMap conjuncts := by
  induction rest generalizing first with
  | nil => simp
  | cons c rest ih =>
    have joined : (Expr.binary .and first c).conjuncts = first.conjuncts ++ c.conjuncts := by
      simp only [conjuncts_eq_spine, spine]
    rw [List.foldl_cons, ih, joined, List.flatMap_cons, List.append_assoc]

theorem conjuncts_conjunction {clauses : List Expr} {e : Expr} (h : conjunction clauses = some e) :
    e.conjuncts = clauses.flatMap conjuncts := by
  cases clauses with
  | nil => cases h
  | cons first rest =>
    cases h
    exact conjuncts_foldl_and first rest

def both (a b : Option Bool) : Option Bool := a.bind fun x => b.map (x && ·)

def decideAll (decisions : List (Option Bool)) : Option Bool := decisions.foldr both (some true)

theorem both_assoc (a b c : Option Bool) : both (both a b) c = both a (both b c) := by
  cases a <;> cases b <;> cases c <;> simp [both, Bool.and_assoc]

theorem both_true (a : Option Bool) : both a (some true) = a := by
  cases a <;> simp [both]

theorem true_both (a : Option Bool) : both (some true) a = a := by
  cases a <;> simp [both]

theorem decideAll_append (a b : List (Option Bool)) :
    decideAll (a ++ b) = both (decideAll a) (decideAll b) := by
  induction a with
  | nil => exact (true_both _).symm
  | cons first rest ih =>
    have joined : decideAll (first :: rest ++ b) = both first (decideAll (rest ++ b)) := rfl
    rw [joined, ih, ← both_assoc]
    rfl

def decision (read : Variable → Int64) (e : Expr) : Option Bool := (truth (e.evaluateWith read)).toOption

variable {read : Variable → Int64}

theorem decision_eq_some {e : Expr} {m : Model} {b : Bool} :
    e.decision m.intView = some b ↔ e.satisfies m = .ok b := by
  rw [decision, satisfies, evaluate]
  cases truth (e.evaluateWith m.intView) <;> simp [Except.toOption]

theorem decision_and (l r : Expr) :
    (Expr.binary .and l r).decision read = both (l.decision read) (r.decision read) := by
  rw [decision, decision, decision, evaluateWith_binary]
  rcases l.evaluateWith read with f | a | a
  · rfl
  · cases r.evaluateWith read <;> rfl
  · rcases r.evaluateWith read with f | b | b <;> rfl

theorem decision_conjuncts (e : Expr) :
    e.decision read = decideAll (e.conjuncts.map (decision read)) := by
  rw [conjuncts_eq_spine]
  fun_induction spine e with
  | case1 l r ihl ihr => rw [decision_and, ihl, ihr, List.map_append, decideAll_append]
  | case2 e => exact (both_true _).symm

theorem isConjunction_of_mem_conjuncts {e c : Expr} (mem : c ∈ e.conjuncts) : c.isConjunction = false := by
  rw [← map_snd_placedSpine] at mem
  obtain ⟨⟨turns, c⟩, placed, rfl⟩ := List.mem_map.mp mem
  exact (mem_placedSpine.mp placed).stops

/-- Each conjunct is its own only one, so that the parts stay the same. -/
theorem conjuncts_refolded {e whole : Expr} (h : conjunction e.conjuncts = some whole) :
    whole.conjuncts = e.conjuncts := by
  have single : ∀ c ∈ e.conjuncts, c.conjuncts = [c] := fun c mem =>
    conjuncts_of_not_conjunction (isConjunction_of_mem_conjuncts mem)
  rw [conjuncts_conjunction h, List.flatMap_def, List.map_congr_left single, ← List.flatMap_def,
    List.flatMap_singleton']

/-- The conjuncts are, left to right, the nodes at which the spine of conjunctions ends. Joining any
clauses joins their conjuncts, and joining the conjuncts of a constraint decides as the constraint. -/
theorem conjuncts_kept (e : Expr) :
    (∃ placed : List (List Bool × Expr),
      placed.map Prod.snd = e.conjuncts ∧ (placed.Pairwise fun p q => p.1 < q.1) ∧
      ∀ turns c, (turns, c) ∈ placed ↔ e.EndsSpine turns c) ∧
    e.conjuncts ≠ [] ∧ (∀ c ∈ e.conjuncts, c.isConjunction = false) ∧
    (∀ first rest, ∃ whole, conjunction (first :: rest) = some whole ∧
      whole.conjuncts = (first :: rest).flatMap conjuncts) ∧
    ∃ whole, conjunction e.conjuncts = some whole ∧
      ∀ m b, e.satisfies m = .ok b ↔ whole.satisfies m = .ok b := by
  refine ⟨⟨e.placedSpine, e.map_snd_placedSpine, e.pairwise_placedSpine, fun turns c => mem_placedSpine⟩,
    e.conjuncts_ne_nil, fun c => isConjunction_of_mem_conjuncts, fun first rest => ?_, ?_⟩
  · exact ⟨_, rfl, conjuncts_conjunction rfl⟩
  · cases joined : conjunction e.conjuncts with
    | none => exact absurd (conjunction_eq_none.mp joined) e.conjuncts_ne_nil
    | some whole =>
      refine ⟨whole, rfl, fun m b => ?_⟩
      rw [← decision_eq_some, ← decision_eq_some, decision_conjuncts, ← conjuncts_refolded joined,
        ← decision_conjuncts]

section Samples

def rooms : Expr := .var ⟨"rooms", .int, 0, 20⟩

def doors : Expr := .var ⟨"doors", .int, 0, 40⟩

def doorForEach : Expr := .binary .ge doors rooms

/-- `((rooms > 1) && (rooms < 9)) && ((doors >= rooms) && (doors < 9))`. -/
def house : Expr :=
  .binary .and (.binary .and (.binary .gt rooms (.int 1)) (.binary .lt rooms (.int 9)))
    (.binary .and doorForEach (.binary .lt doors (.int 9)))

theorem house_taken_apart :
    doorForEach ∈ house.conjuncts ∧ doorForEach.isConjunction = false ∧
    house.EndsSpine [true, false] doorForEach ∧
    ∃ whole, conjunction house.conjuncts = some whole ∧
      ∀ m b, house.satisfies m = .ok b ↔ whole.satisfies m = .ok b := by
  have mem : doorForEach ∈ house.conjuncts := by
    rw [conjuncts_eq_spine]
    decide
  have place : house.EndsSpine [true, false] doorForEach := mem_placedSpine.mp (by decide)
  obtain ⟨-, -, parts, -, refolded⟩ := conjuncts_kept house
  exact ⟨mem, parts doorForEach mem, place, refolded⟩

end Samples

end Expr

end Reprise
