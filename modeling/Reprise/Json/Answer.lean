import Reprise.Answer.Verdict
import Reprise.Json.Expr

/-!
The JSON form of models, cores, outcomes and verdicts. A model is a list of pairs, a core a list of
clauses.
-/
set_option autoImplicit false

namespace Reprise

namespace Model

def toJson (m : Model) : Json := .array (m.pairs.map fun (v, c) => .array [v.toJson, c.toJson])

def decode (source : Json.Source) (j : Json) : Except DecodeFault Model :=
  (j.asList (Json.asPair (Variable.decode source) (Constant.decode source))).map ofList

def parse : String → Except DecodeFault Model := Json.decodeText (decode .text)

end Model

namespace Core

def toJson (c : Core) : Json := .array (c.clauses.map Expr.toJson)

def decode (source : Json.Source) (j : Json) : Except DecodeFault Core :=
  (j.asList (Expr.decode source)).map ofFirsts

def parse : String → Except DecodeFault Core := Json.decodeText (decode .text)

end Core

namespace Outcome

structure Draft where
  isSat : Option Bool
  model : Option Model
  core : Option Core

def fields (source : Json.Source) : List (Json.Field Draft) :=
  [.of "is_sat" Json.asBool fun d b => { d with isSat := some b },
   .of "model" (Json.asOption (Model.decode source)) fun d m => { d with model := m },
   .of "core" (Json.asOption (Core.decode source)) fun d c => { d with core := c }]

def decode (source : Json.Source) (j : Json) : Except DecodeFault Outcome := do
  let d ← j.asRecord (fields source) 3 ⟨none, none, none⟩
  return ⟨← Json.require d.isSat, d.model, d.core⟩

end Outcome

namespace Verdict

def toJson : Verdict → Json
  | .sat m => .object [("verdict", .text "sat"), ("witness", m.toJson)]
  | .unsat c => .object [("verdict", .text "unsat"), ("witness", c.toJson)]

end Verdict

end Reprise
