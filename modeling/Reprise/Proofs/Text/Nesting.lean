import Reprise.Proofs.Text.Token

/-!
Nesting of parentheses. A well-nested text closes what it opens and nothing else. So where such a text
stands behind an opening parenthesis, it is known which parenthesis closes that one.
-/
set_option autoImplicit false

namespace Reprise

namespace Text

def depthStep (depth : Nat) (c : Char) : Option Nat :=
  if c = '(' then some (depth + 1)
  else if c = ')' then if depth = 0 then none else some (depth - 1)
  else some depth

/-- How many parentheses are open after a text; nothing if one was closed that is not open. -/
def depthAfter (depth : Nat) (text : List Char) : Option Nat := text.foldlM depthStep depth

theorem depthAfter_append (depth : Nat) (first second : List Char) :
    depthAfter depth (first ++ second) = (depthAfter depth first).bind fun d => depthAfter d second :=
  List.foldlM_append

def NoParenthesis (text : List Char) : Prop := '(' ∉ text ∧ ')' ∉ text

instance (text : List Char) : Decidable (NoParenthesis text) :=
  inferInstanceAs (Decidable ('(' ∉ text ∧ ')' ∉ text))

theorem noParenthesis_cons {c : Char} {text : List Char} :
    NoParenthesis (c :: text) ↔ (c ≠ '(' ∧ c ≠ ')') ∧ NoParenthesis text := by
  simp only [NoParenthesis, List.mem_cons, not_or, ne_eq, eq_comm (b := c), and_and_and_comm]

theorem noParenthesis_words {text : List Char} (words : ∀ c ∈ text, isWord c = true) :
    NoParenthesis text :=
  ⟨fun opens => absurd (words _ opens) (by decide), fun closes => absurd (words _ closes) (by decide)⟩

theorem Token.noParenthesis {text : List Char} (h : Token text) : NoParenthesis text := by
  cases h with
  | plain words => exact noParenthesis_words words.2
  | minus words => exact noParenthesis_cons.mpr ⟨by decide, noParenthesis_words words.2⟩

/-- At the end as many parentheses are open as before, and on the way never fewer. -/
def WellNested (text : List Char) : Prop := ∀ depth, depthAfter depth text = some depth

theorem NoParenthesis.wellNested {text : List Char} (h : NoParenthesis text) : WellNested text := by
  intro depth
  induction text with
  | nil => rfl
  | cons c rest ih =>
    obtain ⟨⟨no_opening, no_closing⟩, later⟩ := noParenthesis_cons.mp h
    have step : depthStep depth c = some depth := by simp [depthStep, no_opening, no_closing]
    rw [depthAfter, List.foldlM_cons, step]
    exact ih later

theorem WellNested.append {s t : List Char} (hs : WellNested s) (ht : WellNested t) :
    WellNested (s ++ t) := by
  intro depth
  rw [depthAfter_append, hs depth, Option.bind_some, ht depth]

theorem WellNested.enclose {s : List Char} (h : WellNested s) : WellNested ('(' :: (s ++ [')'])) := by
  intro depth
  have opened : depthAfter depth ('(' :: (s ++ [')'])) = depthAfter (depth + 1) (s ++ [')']) := rfl
  rw [opened, depthAfter_append, h, Option.bind_some]
  rfl

theorem WellNested.ne_closed {s t : List Char} (ht : WellNested t) (hs : WellNested s) (rest : List Char) :
    t ≠ s ++ ')' :: rest := by
  rintro rfl
  have closed := ht 0
  rw [depthAfter_append, hs, Option.bind_some] at closed
  cases closed

theorem WellNested.inj {s t u v : List Char} (hs : WellNested s) (ht : WellNested t)
    (h : s ++ ')' :: u = t ++ ')' :: v) : s = t := by
  obtain ⟨more, longer, rest⟩ | ⟨more, longer, rest⟩ := List.append_eq_append_iff.mp h
  · cases more with
    | nil => rw [longer, List.append_nil]
    | cons c more =>
      obtain ⟨rfl, -⟩ := List.cons.inj rest
      exact absurd longer (ht.ne_closed hs more)
  · cases more with
    | nil => rw [longer, List.append_nil]
    | cons c more =>
      obtain ⟨rfl, -⟩ := List.cons.inj rest
      exact absurd longer (hs.ne_closed ht more)

end Text

end Reprise
