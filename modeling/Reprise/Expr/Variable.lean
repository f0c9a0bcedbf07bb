import Reprise.Ordered.Map

/-!
Typed variables with inclusive bounds. Variables are ordered by name, then sort, then bounds; every
set of variables and every model is listed in that order.
-/
set_option autoImplicit false

namespace Reprise

inductive VarSort where
  | int
  | real
  /-- Signed words of the given width. -/
  | bitVec (width : UInt32)
deriving DecidableEq, Inhabited

namespace VarSort

def text : VarSort → String
  | .int => "int"
  | .real => "real"
  | .bitVec width => "bv" ++ toString width.toNat

/-- Integers come first, then reals, then words by width. -/
def place : VarSort → Nat
  | .int => 0
  | .real => 1
  | .bitVec width => 2 + width.toNat

theorem place_injective : ∀ {a b : VarSort}, a.place = b.place → a = b
  | .int, .int, _ => rfl
  | .real, .real, _ => rfl
  | .bitVec _, .bitVec _, h => congrArg bitVec (UInt32.toNat_inj.mp (Nat.add_left_cancel h))
  | .int, .real, h | .real, .int, h => by simp [place] at h
  | .int, .bitVec _, h | .real, .bitVec _, h | .bitVec _, .int, h | .bitVec _, .real, h => by
    simp only [place] at h
    omega

end VarSort

structure Variable where
  name : String
  sort : VarSort
  lower : Int64
  upper : Int64
deriving DecidableEq, Inhabited

namespace Variable

def order : Variable → Variable → Ordering :=
  compareLex (compareOn name) <| compareLex (compareOn (·.sort.place)) <|
    compareLex (compareOn lower) (compareOn upper)

instance : Ord Variable := ⟨order⟩

instance : Std.TransCmp order :=
  inferInstanceAs <| Std.TransCmp <|
    compareLex (compareOn name) <| compareLex (compareOn (·.sort.place)) <|
      compareLex (compareOn lower) (compareOn upper)

instance : Std.TransOrd Variable := inferInstanceAs (Std.TransCmp order)

theorem eq_of_order {a b : Variable} (h : order a b = .eq) : a = b := by
  simp only [order, compareLex, compareOn, Ordering.then_eq_eq] at h
  obtain ⟨name, sort, lower, upper⟩ := h
  cases a; cases b
  simp only [mk.injEq]
  exact ⟨Std.LawfulEqOrd.eq_of_compare name,
    VarSort.place_injective (Std.LawfulEqOrd.eq_of_compare sort),
    Std.LawfulEqOrd.eq_of_compare lower, Std.LawfulEqOrd.eq_of_compare upper⟩

instance : Std.LawfulEqOrd Variable where
  eq_of_compare := eq_of_order
  compare_self := Std.ReflCmp.compare_self

/-- A variable over all signed words of a width, which is held between 1 and 64. -/
def word (name : String) (width : UInt32) : Variable :=
  let width := max 1 (min width 64)
  let half : Nat := 1 <<< (width.toNat - 1)
  ⟨name, .bitVec width, Int64.ofInt (-half), Int64.ofInt (half - 1)⟩

def admits (v : Variable) (value : Int64) : Bool := v.lower ≤ value && value ≤ v.upper

def domainSize (v : Variable) : Nat := (v.upper.toInt - v.lower.toInt + 1).toNat

end Variable

end Reprise
