import Reprise.Answer.Model
import Reprise.Expr.Eval

/-!
Deciding a constraint by trying every assignment within the bounds of its variables, in lexicographic
order of the variables with the last one fastest. The number of assignments is looked at first; a
search beyond the budget is refused.
-/
set_option autoImplicit false

namespace Reprise

namespace Solver

/-- The constant a value is written as in the sort of its variable. -/
def literal (v : Variable) (value : Int64) : Constant :=
  match v.sort with
  | .bitVec width => .bitVec value width
  | _ => .int value

def modelAt (vars : List Variable) (values : List Int64) : Model :=
  .ofList ((vars.zip values).map fun (v, value) => (v, literal v value))

/-- Whether the model is a solution. A division by zero makes it none, any other fault ends the
search. -/
def test (e : Expr) (m : Model) : Except ExprFault Bool :=
  match e.satisfies m with
  | .ok b => .ok b
  | .error (.divisionByZero _) => .ok false
  | .error f => .error f

/-- The last value below its upper bound goes up by one, and those after it go back to their lower
bounds. If there is none, these values were the last. -/
def advance : List Variable → List Int64 → Option (List Int64)
  | v :: vars, n :: values =>
    match advance vars values with
    | some values' => some (n :: values')
    | none => if n < v.upper then some ((n + 1) :: vars.map Variable.lower) else none
  | _, _ => none

/-- How many steps lead from the lower bounds to the upper ones, and one. -/
def span : List Variable → Nat
  | [] => 1
  | v :: vars => ((v.upper.toInt - v.lower.toInt).toNat + 1) * span vars

/-- How many values are still to come: the rank from the end, a digit for each variable. -/
def remaining : List Variable → List Int64 → Nat
  | v :: vars, n :: values => (v.upper.toInt - n.toInt).toNat * span vars + remaining vars values
  | _, _ => 0

theorem remaining_lower (vars : List Variable) :
    remaining vars (vars.map Variable.lower) + 1 = span vars := by
  induction vars with
  | nil => rfl
  | cons v vars ih =>
    rw [List.map_cons, remaining, span, Nat.add_one_mul, Nat.add_assoc, ih]

theorem toInt_add_one {n upper : Int64} (h : n < upper) : (n + 1).toInt = n.toInt + 1 := by
  have low := n.le_toInt
  have top := upper.toInt_lt
  have below := Int64.lt_iff_toInt_lt.mp h
  have one : (1 : Int64).toInt = 1 := rfl
  rw [Int64.toInt_add, one]
  exact Int.bmod_eq_of_le (by omega) (by omega)

theorem remaining_advance {vars : List Variable} {values values' : List Int64}
    (h : advance vars values = some values') : remaining vars values' < remaining vars values := by
  fun_induction advance vars values generalizing values' with
  | case1 v vars n values later advanced ih =>
    cases h
    rw [remaining, remaining]
    exact Nat.add_lt_add_left (ih advanced) _
  | case2 v vars n values advanced below ih =>
    cases h
    have up := Int64.lt_iff_toInt_lt.mp below
    have digit : (v.upper.toInt - n.toInt).toNat = (v.upper.toInt - (n + 1).toInt).toNat + 1 := by
      rw [toInt_add_one below]
      omega
    have first := remaining_lower vars
    rw [remaining, remaining, digit, Nat.add_one_mul]
    omega
  | case3 v vars n values advanced last ih => cases h
  | case4 => cases h

/-- Tests the model of one list of values after the other, up to the first that is a solution or a
fault. -/
def search (e : Expr) (vars : List Variable) (values : List Int64) : Except ExprFault (Option Model) :=
  match test e (modelAt vars values) with
  | .error f => .error f
  | .ok true => .ok (some (modelAt vars values))
  | .ok false =>
    match _advanced : advance vars values with
    | none => .ok none
    | some next => search e vars next
termination_by remaining vars values
decreasing_by exact remaining_advance _advanced

def countLimit : Nat := 1 <<< 128 - 1

/-- The product of the domain sizes; once it passes the limit it stays there. -/
def assignmentCount (vars : List Variable) : Nat :=
  let product := vars.foldlM (fun count v =>
    if count * v.domainSize ≤ countLimit then some (count * v.domainSize) else none) 1
  product.getD countLimit

def findModel (budget : Nat) (e : Expr) : Except OracleFault (Option Model) :=
  let vars := e.vars
  match vars.find? fun v => v.sort = .real with
  | some v =>
    .error (.failed ("variable " ++ v.name ++ " has a real sort and cannot be enumerated"))
  | none =>
    let count := assignmentCount vars
    if budget < count then .error (.searchSpaceTooLarge count budget)
    -- below the limit of counting this is a count of zero
    else if vars.any fun v => v.domainSize = 0 then .ok none
    else (search e vars (vars.map Variable.lower)).mapError .expr

end Solver

end Reprise
