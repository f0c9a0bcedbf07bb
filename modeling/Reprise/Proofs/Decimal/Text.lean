import Reprise.Expr.Constant
import Reprise.Proofs.Text.Token

/-!
The text of a real is a token like that of a whole number.
-/
set_option autoImplicit false

namespace Reprise

open Text

theorem Decimal.isWord_of_mem_zeros {n : Nat} {c : Char} (h : c ∈ (zeros n).toList) :
    isWord c = true := by
  rw [zeros, String.toList_ofList] at h
  rw [(List.mem_replicate.mp h).2]
  decide

theorem Decimal.words_positional (d : Decimal) : Words d.positional.toList := by
  have digits : Words (toString d.coefficient).toList := words_repr d.coefficient
  simp only [positional]
  split
  · rw [String.toList_append]
    exact digits.append fun c => isWord_of_mem_zeros
  · split
    · refine ⟨by simp, fun c mem => ?_⟩
      simp only [String.toList_append, String.toList_ofList, List.mem_append, or_assoc] at mem
      cases mem with
      | inl whole => exact digits.2 c (List.mem_of_mem_take whole)
      | inr later =>
        cases later with
        | inl point =>
          rw [List.mem_singleton.mp point]
          decide
        | inr fraction => exact digits.2 c (List.mem_of_mem_drop fraction)
    · rw [String.toList_append, String.toList_append]
      have start : Words "0.".toList := by decide
      exact (start.append fun c => isWord_of_mem_zeros).append digits.2

namespace Binary64

theorem token_signed {x : Binary64} {body : String} (h : Words body.toList) :
    Token (x.signed body).toList := by
  rw [signed]
  split
  · rw [String.toList_append]
    exact .minus h
  · exact .plain h

theorem token_text (x : Binary64) : Token x.text.toList := by
  rw [text]
  split
  · rw [nonFiniteText]
    split
    · exact .plain (by decide)
    · exact token_signed (by decide)
  · split
    · exact token_signed (by decide)
    · exact token_signed (Decimal.words_positional _)

end Binary64

theorem Constant.token_text (c : Constant) : Token c.text.toList := by
  cases c with
  | int n => exact token_toString n.toInt
  | bitVec n width => exact token_toString n.toInt
  | real x => exact x.token_text

end Reprise
