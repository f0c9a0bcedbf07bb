import Reprise.Proofs.Expr.Canonical

/-!
Expressions that share their parts. A node is made of nodes made before, and any number of nodes may be
made of it; its canonical text is written when it is first asked for, and kept with it. Whatever has been
asked for before, in which order and before or after the node was shared, the text is the spelling.
-/
set_option autoImplicit false

namespace Reprise

namespace Expr

/-- What a node is made of; other nodes stand by their numbers. -/
inductive Shape where
  | var (v : Variable)
  | const (c : Constant)
  | unary (op : UnaryOp) (operand : Nat)
  | binary (op : BinaryOp) (left right : Nat)
deriving DecidableEq

namespace Shape

def operand? : Shape → Bool → Option Nat
  | .unary _ i, false => some i
  | .binary _ l _, false => some l
  | .binary _ _ r, true => some r
  | _, _ => none

def expr? (earlier : Nat → Option Expr) : Shape → Option Expr
  | .var v => some (.var v)
  | .const c => some (.const c)
  | .unary op i => (earlier i).map (.unary op)
  | .binary op l r => (earlier l).bind fun left => (earlier r).map fun right => .binary op left right

end Shape

/-- The shapes of the nodes, the latest first. A node's number is how many were made before it. -/
abbrev Shapes : Type := List Shape

namespace Shapes

def shape? : Shapes → Nat → Option Shape
  | [], _ => none
  | shape :: older, i => if i = older.length then some shape else shape? older i

def expr? : Shapes → Nat → Option Expr
  | [], _ => none
  | shape :: older, i => if i = older.length then shape.expr? (expr? older) else expr? older i

def follow? (shapes : Shapes) (i : Nat) : Path → Option Nat
  | [] => some i
  | turn :: before => (shapes.follow? i before).bind fun j => (shapes.shape? j).bind (·.operand? turn)

variable {shapes : Shapes} {shape : Shape} {i : Nat} {e : Expr}

theorem lt_length_of_expr? (h : shapes.expr? i = some e) : i < shapes.length := by
  induction shapes with
  | nil => cases h
  | cons shape older ih =>
    rw [List.length_cons]
    by_cases last : i = older.length
    · omega
    · rw [expr?, if_neg last] at h
      have before := ih h
      omega

theorem expr?_cons (h : shapes.expr? i = some e) : Shapes.expr? (shape :: shapes) i = some e := by
  have before := lt_length_of_expr? h
  rw [expr?, if_neg (by omega), h]

theorem operand_of_shape {earlier : Nat → Option Expr} {n : Expr} {turn : Bool}
    (made : shape.expr? earlier = some e) (operand : e.operand? turn = some n) :
    ∃ j, shape.operand? turn = some j ∧ earlier j = some n := by
  cases shape with
  | var v =>
    obtain rfl := Option.some.inj made
    cases operand
  | const c =>
    obtain rfl := Option.some.inj made
    cases operand
  | unary op i =>
    obtain ⟨d, below, rfl⟩ := Option.map_eq_some_iff.mp made
    cases turn with
    | false => exact ⟨i, rfl, below.trans operand⟩
    | true => cases operand
  | binary op l r =>
    obtain ⟨left, below_l, later⟩ := Option.bind_eq_some_iff.mp made
    obtain ⟨right, below_r, rfl⟩ := Option.map_eq_some_iff.mp later
    cases turn with
    | false => exact ⟨l, rfl, below_l.trans operand⟩
    | true => exact ⟨r, rfl, below_r.trans operand⟩

theorem operand_of_expr? {n : Expr} {turn : Bool} (h : shapes.expr? i = some e)
    (operand : e.operand? turn = some n) :
    ∃ j, (shapes.shape? i).bind (·.operand? turn) = some j ∧ shapes.expr? j = some n := by
  induction shapes with
  | nil => cases h
  | cons shape older ih =>
    rw [shape?]
    by_cases last : i = older.length
    · rw [expr?, if_pos last] at h
      obtain ⟨j, turned, below⟩ := operand_of_shape h operand
      rw [if_pos last]
      exact ⟨j, turned, expr?_cons below⟩
    · rw [expr?, if_neg last] at h
      obtain ⟨j, turned, below⟩ := ih h
      rw [if_neg last]
      exact ⟨j, turned, expr?_cons below⟩

theorem follow?_of_at? {path : Path} {n : Expr} (h : shapes.expr? i = some e)
    (place : e.at? path.reverse = some n) :
    ∃ j, shapes.follow? i path = some j ∧ shapes.expr? j = some n := by
  induction path generalizing n with
  | nil => exact ⟨i, rfl, h.trans place⟩
  | cons turn before ih =>
    rw [List.reverse_cons, at?_append] at place
    obtain ⟨m, above, last⟩ := Option.bind_eq_some_iff.mp place
    obtain ⟨j, followed, made⟩ := ih above
    have operand : m.operand? turn = some n := by
      have turned := at?_snoc (at?_nil m) turn
      rw [List.nil_append, last] at turned
      exact turned.symm
    obtain ⟨k, turned, below⟩ := operand_of_expr? made operand
    exact ⟨k, by rw [follow?, followed, Option.bind_some, turned], below⟩

end Shapes

/-- Nodes, and the texts that have been asked for. -/
structure Nodes where
  shapes : Shapes
  text : Nat → Option String

namespace Nodes

def empty : Nodes := ⟨[], fun _ => none⟩

def keep (nodes : Nodes) (i : Nat) (written : String) : Nodes :=
  { nodes with text := fun j => if j = i then some written else nodes.text j }

def atHand (nodes : Nodes) (i : Nat) : Path → Option String := fun path =>
  (nodes.shapes.follow? i path).bind nodes.text

/-- The canonical text of a node, written unless it is there. -/
def canonical (nodes : Nodes) (i : Nat) : Option String × Nodes :=
  match nodes.text i, nodes.shapes.expr? i with
  | some known, _ => (some known, nodes)
  | none, none => (none, nodes)
  | none, some e => (some (e.render (nodes.atHand i)), nodes.keep i (e.render (nodes.atHand i)))

inductive Act where
  | make (shape : Shape)
  | ask (i : Nat)

def act (nodes : Nodes) : Act → Nodes
  | .make shape => { nodes with shapes := shape :: nodes.shapes }
  | .ask i => (nodes.canonical i).2

def after (acts : List Act) : Nodes := acts.foldl act empty

/-- A text that is there is the spelling of its node. -/
def Sound (nodes : Nodes) : Prop :=
  ∀ i known, nodes.text i = some known → ∃ e, nodes.shapes.expr? i = some e ∧ known = e.spelling

variable {nodes : Nodes} {i : Nat} {e : Expr}

theorem Sound.knows (h : nodes.Sound) (made : nodes.shapes.expr? i = some e) :
    e.KnowsSpellings (nodes.atHand i) := by
  intro path known n found place
  obtain ⟨j, followed, below⟩ := Shapes.follow?_of_at? made place
  rw [atHand, followed, Option.bind_some] at found
  obtain ⟨d, same, spelled⟩ := h j known found
  obtain rfl := Option.some.inj (below.symm.trans same)
  exact spelled

theorem Sound.canonical_fst (h : nodes.Sound) (made : nodes.shapes.expr? i = some e) :
    (nodes.canonical i).1 = some e.spelling := by
  rw [canonical, made]
  cases found : nodes.text i with
  | none => exact congrArg some (render_eq_spelling (h.knows made))
  | some known =>
    obtain ⟨d, same, rfl⟩ := h i known found
    obtain rfl := Option.some.inj (made.symm.trans same)
    rfl

theorem Sound.keep (h : nodes.Sound) (made : nodes.shapes.expr? i = some e) :
    (nodes.keep i e.spelling).Sound := by
  intro j known found
  have text : (if j = i then some e.spelling else nodes.text j) = some known := found
  by_cases same : j = i
  · subst same
    rw [if_pos rfl] at text
    exact ⟨e, made, (Option.some.inj text).symm⟩
  · rw [if_neg same] at text
    exact h j known text

theorem Sound.canonical_snd (h : nodes.Sound) (i : Nat) : (nodes.canonical i).2.Sound := by
  rw [canonical]
  cases found : nodes.text i with
  | some known => exact h
  | none =>
    cases made : nodes.shapes.expr? i with
    | none => exact h
    | some e =>
      simp only [render_eq_spelling (h.knows made)]
      exact h.keep made

theorem Sound.act (h : nodes.Sound) (act : Act) : (nodes.act act).Sound := by
  cases act with
  | make shape =>
    intro i known found
    obtain ⟨e, made, spelled⟩ := h i known found
    exact ⟨e, Shapes.expr?_cons made, spelled⟩
  | ask i => exact h.canonical_snd i

theorem sound_after (acts : List Act) : (after acts).Sound := by
  have run : ∀ nodes : Nodes, nodes.Sound → (acts.foldl Nodes.act nodes).Sound := by
    induction acts with
    | nil => exact fun _ h => h
    | cons act acts ih => exact fun nodes h => ih (nodes.act act) (h.act act)
  exact run empty fun i known found => nomatch found

/-- Whichever nodes of an expression have their text at hand, and whatever has been made and asked for
before, the text is the spelling. -/
theorem canonical_whatever_known :
    (∀ (e : Expr) (known : Path → Bool),
      e.render (fun path => if known path then (e.at? path.reverse).map Expr.canonical else none) =
        e.spelling) ∧
    ∀ acts i e, (after acts).shapes.expr? i = some e →
      e.render ((after acts).atHand i) = e.spelling ∧ ((after acts).canonical i).1 = some e.spelling := by
  refine ⟨fun e known => render_eq_spelling fun path text n found place => ?_, fun acts i e made => ?_⟩
  · cases asked : known path with
    | false => simp [asked] at found
    | true =>
      rw [place] at found
      simpa [asked, canonical_eq_spelling] using found.symm
  · have sound := sound_after acts
    exact ⟨render_eq_spelling (sound.knows made), sound.canonical_fst made⟩

section Samples

def width : Variable := ⟨"width", .int, -100, 100⟩

/-- `!((width < 5) || (width >= 1))`, whose left part is asked for before and the right one after it is
shared. -/
def asked : List Act :=
  [.make (.var width), .make (.const (.int 5)), .make (.binary .lt 0 1), .ask 2, .make (.const (.int 1)),
    .make (.binary .ge 0 3), .make (.binary .or 2 4), .make (.unary .not 5), .ask 4, .ask 4, .ask 0]

theorem text_of_asked :
    let e : Expr := .unary .not (.binary .or (.binary .lt (.var width) (.int 5))
      (.binary .ge (.var width) (.int 1)))
    (after asked).shapes.expr? 6 = some e ∧
    ((after asked).text 2).isSome = true ∧ ((after asked).text 4).isSome = true ∧
    (after asked).text 5 = none ∧
    ((after asked).canonical 6).1 = some "!((width<5)||(width>=1))" := by
  intro e
  have made : (after asked).shapes.expr? 6 = some e := rfl
  have spelled : e.spelling = "!((width<5)||(width>=1))" := by decide +kernel
  have text := (canonical_whatever_known.2 asked 6 e made).2
  rw [spelled] at text
  exact ⟨made, rfl, rfl, rfl, text⟩

end Samples

end Nodes

end Expr

end Reprise
