import Reprise.Proofs.Distance.Memo
import Reprise.Proofs.Session.Answer
import Reprise.Table.Memory

/-!
The distances that a session tells in the course of a run: each is the distance of the first
expression of the text, asked for since the session was started or cleared.
-/
set_option autoImplicit false

namespace Reprise

namespace Session

variable {τ : Type} [Table τ] {s : Session τ} {asked : List Expr}

/-- The sessions that runs lead to, with the expressions whose distance was asked for, first first,
since the session was started or cleared. -/
inductive Measured : List Expr → Session τ → Prop
  | start {config : Config} {table : Option τ} {s : Session τ} :
    Session.start config table = .ok s → Measured [] s
  | measure {asked : List Expr} {s : Session τ} (e : Expr) :
    Measured asked s → Measured (asked ++ [e]) (s.satDelta e).2
  | resolve {asked : List Expr} {s : Session τ} {ω : Type} (ask : Oracle ω) (e : Expr) (w : ω) :
    Measured asked s → Measured (asked ++ [e]) (s.resolve ask e w).2.1
  | clear {asked : List Expr} {s : Session τ} : Measured asked s → Measured [] s.clear
  | persist {asked : List Expr} {s : Session τ} : Measured asked s → Measured asked s.persist.2
  | table {asked : List Expr} {s : Session τ} (t : Option τ) :
    Measured asked s → Measured asked { s with table := t }

section Samples

def count : Variable := ⟨"count", .bitVec 8, -128, 127⟩

def countBelow (bound : Constant) : Expr := .binary .lt (.var count) (.const bound)

end Samples

end Session

end Reprise
