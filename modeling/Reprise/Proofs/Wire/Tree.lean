import Reprise.Proofs.Expr.Tree
import Reprise.Proofs.Wire.Delimited

/-!
The bytes of expressions, read without regard to the number of operands. Reading an expression gives what
stands there, down to the last operand, and only where every operator has the operands it takes.
-/
set_option autoImplicit false

namespace Reprise

namespace Wire

def getTreeWithin : Nat → Reader Tree
  | 0, _ => none
  | depth + 1, bytes =>
    match getTag bytes with
    | some (0, rest) => (getVariable rest).map fun (v, rest) => (.var v, rest)
    | some (1, rest) => (getConstant rest).map fun (c, rest) => (.const c, rest)
    | some (2, rest) => do
      let (tag, rest) ← getTag rest
      let op ← Operator.ofIndex? tag
      let (operands, rest) ← getList (getTreeWithin depth) rest
      some (.operation op operands, rest)
    | _ => none

def getTree : Reader Tree := fun bytes => getTreeWithin bytes.length bytes

/-- What is read as an expression is what is read as its tree. -/
def ReadsTrees (get : Reader Expr) (getRaw : Reader Tree) : Prop :=
  ∀ bytes e rest, get bytes = some (e, rest) ↔ getRaw bytes = some (e.tree, rest)

variable {get : Reader Expr} {getRaw : Reader Tree}

theorem ReadsTrees.items (h : ReadsTrees get getRaw) (n : Nat) (bytes : Bytes) (es : List Expr)
    (rest : Bytes) :
    getItems get n bytes = some (es, rest) ↔ getItems getRaw n bytes = some (es.map Expr.tree, rest) := by
  induction es generalizing n bytes with
  | nil => rw [List.map_nil, getItems_eq_nil, getItems_eq_nil]
  | cons e others ih =>
    rw [List.map_cons, getItems_eq_cons, getItems_eq_cons]
    simp only [h _ e, ih]

theorem ReadsTrees.list (h : ReadsTrees get getRaw) (bytes : Bytes) (es : List Expr) (rest : Bytes) :
    getList get bytes = some (es, rest) ↔ getList getRaw bytes = some (es.map Expr.tree, rest) := by
  rw [getList_eq_some, getList_eq_some]
  simp only [h.items]

theorem readsExpr_iff {bytes rest : Bytes} {e : Expr} :
    ReadsExpr get bytes e rest ↔
      (∃ after v, getTag bytes = some (0, after) ∧ getVariable after = some (v, rest) ∧ e = .var v) ∨
      (∃ after c, getTag bytes = some (1, after) ∧ getConstant after = some (c, rest) ∧ e = .const c) ∨
      ∃ after tag after_tag op operands,
        getTag bytes = some (2, after) ∧ getTag after = some (tag, after_tag) ∧
        Operator.ofIndex? tag = some op ∧ getList get after_tag = some (operands, rest) ∧
        Expr.operation op operands = .ok e := by
  constructor
  · intro reads
    cases reads with
    | var tag got => exact Or.inl ⟨_, _, tag, got, rfl⟩
    | const tag got => exact Or.inr (Or.inl ⟨_, _, tag, got, rfl⟩)
    | unary tag number known count got =>
      have operand := getItems_eq_cons.mpr ⟨0, _, rfl, got, getItems_eq_nil.mpr ⟨rfl, rfl⟩⟩
      have operands := getList_eq_some.mpr ⟨1, _, count, operand⟩
      exact Or.inr (Or.inr ⟨_, _, _, _, _, tag, number, known, operands, rfl⟩)
    | binary tag number known count got_l got_r =>
      have right := getItems_eq_cons.mpr ⟨0, _, rfl, got_r, getItems_eq_nil.mpr ⟨rfl, rfl⟩⟩
      have left := getItems_eq_cons.mpr ⟨1, _, rfl, got_l, right⟩
      have operands := getList_eq_some.mpr ⟨2, _, count, left⟩
      exact Or.inr (Or.inr ⟨_, _, _, _, _, tag, number, known, operands, rfl⟩)
  · rintro (⟨after, v, tag, got, rfl⟩ | ⟨after, c, tag, got, rfl⟩ |
      ⟨after, number, after_tag, op, operands, tag, got_number, known, got, made⟩)
    · exact .var tag got
    · exact .const tag got
    · obtain ⟨n, after_count, count, read⟩ := getList_eq_some.mp got
      unfold Expr.operation at made
      split at made
      · cases made
        obtain ⟨m, left, rfl, got_d, none_left⟩ := getItems_eq_cons.mp read
        obtain ⟨rfl, rfl⟩ := getItems_eq_nil.mp none_left
        exact .unary tag got_number known count got_d
      · cases made
        obtain ⟨m, after_left, rfl, got_l, read⟩ := getItems_eq_cons.mp read
        obtain ⟨m, left, rfl, got_r, none_left⟩ := getItems_eq_cons.mp read
        obtain ⟨rfl, rfl⟩ := getItems_eq_nil.mp none_left
        exact .binary tag got_number known count got_l got_r
      · cases made

theorem getTreeWithin_succ {depth : Nat} {bytes rest : Bytes} {t : Tree} :
    getTreeWithin (depth + 1) bytes = some (t, rest) ↔
      (∃ after v, getTag bytes = some (0, after) ∧ getVariable after = some (v, rest) ∧ t = .var v) ∨
      (∃ after c, getTag bytes = some (1, after) ∧ getConstant after = some (c, rest) ∧ t = .const c) ∨
      ∃ after tag after_tag op trees,
        getTag bytes = some (2, after) ∧ getTag after = some (tag, after_tag) ∧
        Operator.ofIndex? tag = some op ∧ getList (getTreeWithin depth) after_tag = some (trees, rest) ∧
        t = .operation op trees := by
  constructor
  · intro read
    rw [getTreeWithin] at read
    split at read
    · rename_i after tag
      obtain ⟨⟨v, left⟩, got, same⟩ := Option.map_eq_some_iff.mp read
      cases same
      exact Or.inl ⟨_, _, tag, got, rfl⟩
    · rename_i after tag
      obtain ⟨⟨c, left⟩, got, same⟩ := Option.map_eq_some_iff.mp read
      cases same
      exact Or.inr (Or.inl ⟨_, _, tag, got, rfl⟩)
    · rename_i after tag
      simp only [Option.bind_eq_bind, Option.bind_eq_some_iff, Prod.exists] at read
      obtain ⟨number, after_tag, got_number, op, known, trees, left, got, same⟩ := read
      cases same
      exact Or.inr (Or.inr ⟨_, _, _, _, _, tag, got_number, known, got, rfl⟩)
    · cases read
  · rintro (⟨after, v, tag, got, rfl⟩ | ⟨after, c, tag, got, rfl⟩ |
      ⟨after, number, after_tag, op, trees, tag, got_number, known, got, rfl⟩)
    · rw [getTreeWithin, tag]
      simp only [got, Option.map_some]
    · rw [getTreeWithin, tag]
      simp only [got, Option.map_some]
    · rw [getTreeWithin, tag]
      simp only [Option.bind_eq_bind, Option.bind_some, got_number, known, got]

theorem readsTrees_within (depth : Nat) : ReadsTrees (getExprWithin depth) (getTreeWithin depth) := by
  induction depth with
  | zero =>
    intro bytes e rest
    simp [getExprWithin, getTreeWithin]
  | succ depth ih =>
    intro bytes e rest
    rw [getExprWithin_succ, readsExpr_iff, getTreeWithin_succ]
    simp only [Expr.tree_eq_var, Expr.tree_eq_const, Expr.tree_eq_operation, ih.list]
    constructor
    · rintro (leaf | leaf | ⟨after, number, after_tag, op, operands, tag, got_number, known, got, made⟩)
      · exact Or.inl leaf
      · exact Or.inr (Or.inl leaf)
      · exact Or.inr (Or.inr
          ⟨after, number, after_tag, op, _, tag, got_number, known, got, operands, rfl, made⟩)
    · rintro (leaf | leaf |
        ⟨after, number, after_tag, op, _, tag, got_number, known, got, operands, rfl, made⟩)
      · exact Or.inl leaf
      · exact Or.inr (Or.inl leaf)
      · exact Or.inr (Or.inr ⟨after, number, after_tag, op, operands, tag, got_number, known, got, made⟩)

theorem readsTrees_getExpr : ReadsTrees getExpr getTree :=
  fun bytes => readsTrees_within bytes.length bytes

theorem getCore_eq_some {bytes rest : Bytes} {c : Core} :
    Payload.get bytes = some (c, rest) ↔
      ∃ clauses : List Expr, getList getTree bytes = some (clauses.map Expr.tree, rest) ∧
        .ofFirsts clauses = c := by
  simp only [← readsTrees_getExpr.list]
  constructor
  · intro read
    obtain ⟨⟨clauses, left⟩, got, same⟩ := Option.map_eq_some_iff.mp read
    cases same
    exact ⟨clauses, got, rfl⟩
  · rintro ⟨clauses, got, rfl⟩
    exact Option.map_eq_some_iff.mpr ⟨(clauses, rest), got, rfl⟩

end Wire

end Reprise
