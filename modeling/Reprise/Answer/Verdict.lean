import Reprise.Answer.Core
import Reprise.Answer.Model

/-!
What an oracle says and what it comes to. The raw outcome may lack the model or the core that it
owes; a verdict has its witness.
-/
set_option autoImplicit false

namespace Reprise

structure Outcome where
  isSat : Bool
  model : Option Model
  core : Option Core
deriving DecidableEq

inductive Verdict where
  | sat (model : Model)
  | unsat (core : Core)
deriving DecidableEq

namespace Verdict

def isSat : Verdict → Bool
  | .sat _ => true
  | .unsat _ => false

def model? : Verdict → Option Model
  | .sat m => some m
  | .unsat _ => none

def core? : Verdict → Option Core
  | .sat _ => none
  | .unsat c => some c

def text : Verdict → String
  | .sat m => "sat " ++ m.text
  | .unsat c => "unsat " ++ c.text

end Verdict

namespace Outcome

def ofModel (m : Model) : Outcome := ⟨true, some m, none⟩

def ofCore (c : Core) : Outcome := ⟨false, none, some c⟩

/-- A witness for the other answer is passed over. -/
def verdict : Outcome → Except OracleFault Verdict
  | ⟨true, some m, _⟩ => .ok (.sat m)
  | ⟨false, _, some c⟩ => .ok (.unsat c)
  | ⟨true, none, _⟩ => .error (.malformed "satisfiable answer without a model")
  | ⟨false, _, none⟩ => .error (.malformed "unsatisfiable answer without a core")

end Outcome

/-- A decision procedure that may keep a state of its own between the questions. -/
abbrev Oracle (ω : Type) : Type := Expr → ω → Except OracleFault Outcome × ω

end Reprise
