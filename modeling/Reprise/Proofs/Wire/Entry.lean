import Reprise.Proofs.Answer.Core
import Reprise.Proofs.Wire.Expr
import Reprise.Wire.Entry

/-!
Cache entries are read back from their bytes, payload and all.
-/
set_option autoImplicit false

namespace Reprise

/-- Payloads that are read back whenever their lengths can be written. Their kind stands between
colons in a table key and has none itself. -/
class LawfulPayload (α : Type) [Payload α] : Prop where
  plain_kind : ':' ∉ (Payload.kind α).toList
  get_put : ∀ a : α, Payload.fits a = true → Wire.ReadsBack Payload.put Payload.get a

namespace Wire

theorem getPair_putPair {p : Variable × Constant} (h : lengthFits p.1.name.utf8ByteSize = true) :
    ReadsBack putPair getPair p := by
  intro rest
  rw [putPair, getPair, getVariable_putVariable h]
  simp only [Option.bind_eq_bind, Option.bind_some, getConstant_putConstant _ _]

instance : LawfulPayload Model where
  plain_kind := by decide
  get_put m fits rest := by
    have sizes := Bool.and_eq_true_iff.mp fits
    have pairs := getList_putList sizes.1
      fun p hp => getPair_putPair (List.all_eq_true.mp sizes.2 p hp)
    have same : Model.ofList m.pairs = m := congrArg Model.mk (OrderedMap.ofList_entries m.assignments)
    calc Payload.get (Payload.put m rest)
        = (some (m.pairs, rest)).map fun (pairs, rest) => (Model.ofList pairs, rest) :=
          congrArg (Option.map _) (pairs rest)
      _ = some (m, rest) := congrArg (fun m => some (m, rest)) same

instance : LawfulPayload Core where
  plain_kind := by decide
  get_put c fits rest := by
    have sizes := Bool.and_eq_true_iff.mp fits
    have length_eq : c.clauses.length = c.size := List.length_map _
    have clauses := getList_putList (length_eq ▸ sizes.1)
      fun k hk => getExpr_putExpr (List.all_eq_true.mp sizes.2 k hk)
    calc Payload.get (Payload.put c rest)
        = (some (c.clauses, rest)).map fun (clauses, rest) => (Core.ofFirsts clauses, rest) :=
          congrArg (Option.map _) (clauses rest)
      _ = some (c, rest) := congrArg (fun c => some (c, rest)) c.ofFirsts_clauses

end Wire

namespace Entry

variable {α : Type} [Payload α] [LawfulPayload α]

theorem get_put {e : Entry α} (fits : e.fits = true) : Wire.ReadsBack Entry.put Entry.get e := by
  intro rest
  have sizes := Bool.and_eq_true_iff.mp fits
  have payload := LawfulPayload.get_put e.payload sizes.2 rest
  rw [Entry.put, Entry.get, Wire.getLong_putLong]
  simp only [Option.bind_eq_bind, Option.bind_some, Wire.getLength_putLength sizes.1, payload]

theorem decode?_encode? {e : Entry α} {bytes : Bytes} (h : e.encode? = some bytes) :
    Entry.decode? bytes = some e := by
  rw [encode?] at h
  split at h
  · rename_i fits
    cases h
    rw [decode?, get_put fits]
    rfl
  · cases h

end Entry

end Reprise
