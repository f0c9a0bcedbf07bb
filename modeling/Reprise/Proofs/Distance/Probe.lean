import Reprise.Distance.Basic
import Reprise.Proofs.Expr.Reading

/-!
The distance as a recursion over the expression. It always has a value, and expressions of one text
over whole numbers have one distance.
-/
set_option autoImplicit false

namespace Reprise

theorem Constant.measure_of_asInt {c : Constant} {n : Int64} (h : c.asInt = some n) :
    c.measure = n := by
  cases c with
  | int m => cases h; rfl
  | bitVec m width => cases h; rfl
  | real r => cases h

namespace Expr

def violationAt (reference : Int64) : Expr → Int64
  | .var _ => reference
  | .const c => c.measure
  | .unary _ _ => 0
  | .binary op l r => op.violation (l.violationAt reference) (r.violationAt reference)

theorem fold_prober (e : Expr) (reference : Int64) :
    e.fold (prober reference) () = (.ok (e.violationAt reference), ()) := by
  induction e with
  | var v => rfl
  | const c => rfl
  | unary op e ih =>
    rw [fold, ih]
    rfl
  | binary op l r ihl ihr =>
    simp only [fold, ihl, ihr]
    rfl

theorem probe_eq (e : Expr) (reference : Int64) :
    e.probe reference = .ok (e.violationAt reference) := by
  rw [probe, walk_eq_fold, fold_prober]

/-- The texts of the leaves with the numbers they stand for; a variable has none of its own. -/
def leafNumbers : Expr → List (String × Option Int64)
  | .var v => [(v.name, none)]
  | .const c => [(c.text, some c.measure)]
  | .unary _ e => e.leafNumbers
  | .binary _ l r => l.leafNumbers ++ r.leafNumbers

/-- Leaves of one text stand for one number. -/
def LeavesAgree (a b : Expr) : Prop :=
  ∀ p ∈ a.leafNumbers, ∀ q ∈ b.leafNumbers, p.1 = q.1 → p.2 = q.2

instance (a b : Expr) : Decidable (LeavesAgree a b) :=
  inferInstanceAs (Decidable (∀ p ∈ a.leafNumbers, ∀ q ∈ b.leafNumbers, _))

theorem leafNumbers_leaf {a : Expr} (leaf : a.isOperation = false) :
    ∃ number, a.leafNumbers = [(a.spelling, number)] ∧
      ∀ reference, a.violationAt reference = number.getD reference := by
  cases a with
  | var v => exact ⟨none, rfl, fun _ => rfl⟩
  | const c => exact ⟨some c.measure, rfl, fun _ => rfl⟩
  | unary op e => cases leaf
  | binary op l r => cases leaf

theorem Alike.violationAt_eq {a b : Expr} (alike : Alike a b) (agree : LeavesAgree a b)
    (reference : Int64) : a.violationAt reference = b.violationAt reference := by
  induction alike with
  | leaf leaf leaf' same =>
    obtain ⟨number, leaves, value⟩ := leafNumbers_leaf leaf
    obtain ⟨number', leaves', value'⟩ := leafNumbers_leaf leaf'
    have numbers : number = number' := agree (_, number) (leaves ▸ List.mem_cons_self) (_, number')
      (leaves' ▸ List.mem_cons_self) same
    rw [value, value', numbers]
  | unary op _ _ => rfl
  | binary op _ _ ihl ihr =>
    have left := ihl fun p hp q hq => agree p (List.mem_append_left _ hp) q (List.mem_append_left _ hq)
    have right := ihr fun p hp q hq =>
      agree p (List.mem_append_right _ hp) q (List.mem_append_right _ hq)
    rw [violationAt, violationAt, left, right]

end Expr

namespace SatDelta

theorem exists_probeAll (e : Expr) (count : Nat) (references : List Int64) (total : Binary64) :
    ∃ delta, probeAll e count references total = .ok delta := by
  induction references generalizing total with
  | nil => exact ⟨_, rfl⟩
  | cons reference rest ih =>
    rw [probeAll, Expr.probe_eq]
    simp only
    split
    · exact ⟨_, rfl⟩
    · exact ih _

theorem exists_compute (e : Expr) (references : List Int64) :
    ∃ delta, compute e references = .ok delta := by
  rw [compute]
  split
  · exact ⟨_, rfl⟩
  · exact exists_probeAll e _ references 0

end SatDelta

namespace Expr

/-- A large real has the text of another whole number. -/
example :
    let real : Expr := .binary .sub (.const (.real ⟨0x43B0000000000000⟩)) (.int 1152921504606846976)
    let whole : Expr := .binary .sub (.int 1152921504606847000) (.int 1152921504606846976)
    real.canonical = whole.canonical ∧ real.violationAt 0 ≠ whole.violationAt 0 := by
  decide +kernel

def isWhole : Expr → Bool
  | .var _ => true
  | .const c => c.asInt.isSome
  | .unary _ e => e.isWhole
  | .binary _ l r => l.isWhole && r.isWhole

theorem leaf_of_isWhole {e : Expr} (names : e.NoNumerals) (whole : e.isWhole = true)
    {p : String × Option Int64} (h : p ∈ e.leafNumbers) :
    NoNumeral p.1 ∧ p.2 = none ∨ ∃ n : Int64, p = (toString n.toInt, some n) := by
  induction e with
  | var v =>
    rw [List.mem_singleton.mp h]
    exact Or.inl ⟨names v (by simp), rfl⟩
  | const c =>
    obtain ⟨n, number⟩ := Option.isSome_iff_exists.mp whole
    rw [leafNumbers, Constant.text_of_asInt number, Constant.measure_of_asInt number] at h
    exact Or.inr ⟨n, List.mem_singleton.mp h⟩
  | unary op e ih => exact ih (noNumerals_unary.mp names) whole h
  | binary op l r ihl ihr =>
    obtain ⟨names_l, names_r⟩ := noNumerals_binary.mp names
    obtain ⟨whole_l, whole_r⟩ := Bool.and_eq_true_iff.mp whole
    cases List.mem_append.mp h with
    | inl left => exact ihl names_l whole_l left
    | inr right => exact ihr names_r whole_r right

theorem leavesAgree_of_isWhole {a b : Expr} (names : a.NoNumerals) (names' : b.NoNumerals)
    (whole : a.isWhole = true) (whole' : b.isWhole = true) : LeavesAgree a b := by
  intro p hp q hq same
  cases leaf_of_isWhole names whole hp with
  | inl name =>
    cases leaf_of_isWhole names' whole' hq with
    | inl name' => rw [name.2, name'.2]
    | inr number' =>
      obtain ⟨n, rfl⟩ := number'
      exact absurd same (name.1.ne_toString _)
  | inr number =>
    obtain ⟨n, rfl⟩ := number
    cases leaf_of_isWhole names' whole' hq with
    | inl name' => exact absurd same.symm (name'.1.ne_toString _)
    | inr number' =>
      obtain ⟨n', rfl⟩ := number'
      rw [Int64.toInt_inj.mp (Text.toString_inj same)]

end Expr

end Reprise
