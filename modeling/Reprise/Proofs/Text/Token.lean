import Reprise.Proofs.Text.Split

/-!
Tokens of the canonical texts: runs of characters that stand in no operator, with a minus before them
in negative numbers. A token ends where an operator or a parenthesis follows.
-/
set_option autoImplicit false

namespace Reprise

namespace Text

def marks : List Char :=
  ['(', ')', '!', '=', '<', '>', '&', '|', '+', '-', '*', '/', '%', '^']

def isWord (c : Char) : Bool := !marks.contains c

theorem isWord_iff {c : Char} : isWord c = true ↔ c ∉ marks := by simp [isWord]

theorem isWord_of_isDigit {c : Char} (h : c.isDigit = true) : isWord c = true := by
  have no_digits : marks.all (fun m => !m.isDigit) = true := by decide
  rw [isWord_iff]
  intro mark
  have no_digit := List.all_eq_true.mp no_digits c mark
  rw [h] at no_digit
  cases no_digit

/-- The text is one or more characters that stand in no operator. -/
def Words (text : List Char) : Prop := text ≠ [] ∧ ∀ c ∈ text, isWord c = true

instance (text : List Char) : Decidable (Words text) :=
  decidable_of_iff (text ≠ [] ∧ text.all isWord = true) (by rw [Words, List.all_eq_true])

theorem Words.append {s t : List Char} (hs : Words s) (ht : ∀ c ∈ t, isWord c = true) :
    Words (s ++ t) := by
  refine ⟨fun empty => hs.1 (List.append_eq_nil_iff.mp empty).1, fun c mem => ?_⟩
  cases List.mem_append.mp mem with
  | inl left => exact hs.2 c left
  | inr right => exact ht c right

theorem Words.exists_head {text : List Char} (h : Words text) :
    ∃ c rest, text = c :: rest ∧ isWord c = true := by
  cases text with
  | nil => exact absurd rfl h.1
  | cons c rest => exact ⟨c, rest, rfl, h.2 c List.mem_cons_self⟩

inductive Token : List Char → Prop
  | plain {body : List Char} : Words body → Token body
  | minus {body : List Char} : Words body → Token ('-' :: body)

theorem Token.exists_head {text : List Char} (h : Token text) :
    ∃ c rest, text = c :: rest ∧ (c = '-' ∨ isWord c = true) := by
  cases h with
  | plain body =>
    obtain ⟨c, rest, rfl, word⟩ := body.exists_head
    exact ⟨c, rest, rfl, Or.inr word⟩
  | minus body => exact ⟨'-', _, rfl, Or.inl rfl⟩

theorem Words.ne_mark {m : Char} (mark : m ∈ marks) {body : List Char} (h : Words body)
    (s t : List Char) : body ++ s ≠ m :: t := by
  obtain ⟨c, rest, rfl, word⟩ := h.exists_head
  intro same
  have head : c = m := (List.cons.inj same).1
  exact isWord_iff.mp word (head ▸ mark)

theorem Words.ne_minus {body : List Char} (h : Words body) (s t : List Char) :
    body ++ s ≠ '-' :: t := h.ne_mark (by decide) s t

theorem Token.ne_paren {text : List Char} (h : Token text) (s t : List Char) :
    text ++ s ≠ '(' :: t := by
  cases h with
  | plain words => exact words.ne_mark (by decide) s t
  | minus words => exact fun same => absurd (List.cons.inj same).1 (by decide)

theorem Token.inj {a b s t : List Char} (ha : Token a) (hb : Token b) (hs : Stops isWord s)
    (ht : Stops isWord t) (h : a ++ s = b ++ t) : a = b ∧ s = t := by
  cases ha with
  | plain wa =>
    cases hb with
    | plain wb => exact run_inj wa.2 wb.2 hs ht h
    | minus wb => exact absurd h (wa.ne_minus s _)
  | minus wa =>
    cases hb with
    | plain wb => exact absurd h.symm (wb.ne_minus t _)
    | minus wb =>
      obtain ⟨rfl, rest⟩ := run_inj wa.2 wb.2 hs ht (List.cons.inj h).2
      exact ⟨rfl, rest⟩

section Numbers

theorem words_repr (n : Nat) : Words n.repr.toList := by
  rw [Nat.toList_repr]
  refine ⟨Nat.toDigits_ne_nil, fun c mem => isWord_of_isDigit ?_⟩
  exact Nat.isDigit_of_mem_toDigits (by decide) (by decide) mem

theorem repr_inj {m n : Nat} (h : m.repr = n.repr) : m = n := by
  have digits : Nat.toDigits 10 m = Nat.toDigits 10 n := by
    rw [← Nat.toList_repr, ← Nat.toList_repr, h]
  have back := congrArg (fun digits => Nat.ofDigitChars 10 digits 0) digits
  simpa using back

theorem toList_toString (n : Int) : (toString n).toList =
    if 0 ≤ n then n.toNat.repr.toList else '-' :: (-n).toNat.repr.toList := by
  rw [Int.toString_eq_repr, Int.repr_eq_if]
  split <;> simp

theorem token_toString (n : Int) : Token (toString n).toList := by
  rw [toList_toString]
  split
  · exact .plain (words_repr _)
  · exact .minus (words_repr _)

theorem toString_inj {m n : Int} (h : toString m = toString n) : m = n := by
  have same := congrArg String.toList h
  rw [toList_toString, toList_toString] at same
  by_cases low : 0 ≤ m
  · by_cases low' : 0 ≤ n
    · rw [if_pos low, if_pos low'] at same
      have digits := repr_inj (String.toList_inj.mp same)
      omega
    · rw [if_pos low, if_neg low', ← List.append_nil (Nat.repr _).toList] at same
      exact absurd same ((words_repr _).ne_minus _ _)
  · by_cases low' : 0 ≤ n
    · rw [if_neg low, if_pos low', ← List.append_nil (Nat.repr n.toNat).toList] at same
      exact absurd same.symm ((words_repr _).ne_minus _ _)
    · rw [if_neg low, if_neg low'] at same
      have digits := repr_inj (String.toList_inj.mp (List.cons.inj same).2)
      omega

theorem exists_head_toString (n : Int) :
    ∃ c rest, (toString n).toList = c :: rest ∧ (c = '-' ∨ c.isDigit = true) := by
  have digit : ∀ k : Nat, ∃ c rest, k.repr.toList = c :: rest ∧ c.isDigit = true := by
    intro k
    obtain ⟨c, rest, same, -⟩ := (words_repr k).exists_head
    rw [Nat.toList_repr] at same
    exact ⟨c, rest, by rw [Nat.toList_repr, same],
      Nat.isDigit_of_mem_toDigits (by decide) (by decide) (same ▸ List.mem_cons_self)⟩
  rw [toList_toString]
  split
  · obtain ⟨c, rest, same, is_digit⟩ := digit n.toNat
    exact ⟨c, rest, same, Or.inr is_digit⟩
  · exact ⟨'-', _, rfl, Or.inl rfl⟩

end Numbers

end Text

end Reprise
