import Reprise.Proofs.Text.Token
import Reprise.Text.Occurs

/-!
Looking for words in parentheses. The scan reads a text from left to right and remembers whether only
words have come since the last opening parenthesis; where such words are closed again it stops.
-/
set_option autoImplicit false

namespace Reprise

namespace Text

theorem occursIn_iff {part text : List Char} : occursIn part text = true ↔ part <:+: text := by
  induction text with
  | nil => rw [occursIn, List.isEmpty_iff, List.infix_nil]
  | cons c rest ih =>
    rw [occursIn, Bool.or_eq_true, List.isPrefixOf_iff_prefix, ih, List.infix_cons_iff]

/-- `bare` tells whether only words have come since the last opening parenthesis. -/
def bareStep (bare : Bool) (c : Char) : Option Bool :=
  if c = '(' then some true
  else if c = ')' then if bare then none else some false
  else some (bare && isWord c)

/-- What is left of the state after a text; nothing if bare words were closed in it. -/
def bareAfter (bare : Bool) (text : List Char) : Option Bool := text.foldlM bareStep bare

theorem bareAfter_append (bare : Bool) (first second : List Char) :
    bareAfter bare (first ++ second) = (bareAfter bare first).bind fun b => bareAfter b second :=
  List.foldlM_append

theorem bareAfter_words {text : List Char} (words : ∀ c ∈ text, isWord c = true) (bare : Bool) :
    bareAfter bare text = some bare := by
  induction text with
  | nil => rfl
  | cons c rest ih =>
    have word := words c List.mem_cons_self
    have no_opening : c ≠ '(' := fun same => absurd (same ▸ word) (by decide)
    have no_closing : c ≠ ')' := fun same => absurd (same ▸ word) (by decide)
    have step : bareStep bare c = some bare := by simp [bareStep, no_opening, no_closing, word]
    rw [bareAfter, List.foldlM_cons, step]
    exact ih fun c mem => words c (List.mem_cons_of_mem _ mem)

theorem bareAfter_token {text : List Char} (h : Token text) (bare : Bool) :
    ∃ after, bareAfter bare text = some after ∧ (bare = false → after = false) := by
  cases h with
  | plain words => exact ⟨bare, bareAfter_words words.2 bare, id⟩
  | @minus body words =>
    have minus : bareAfter bare ('-' :: body) = bareAfter (bare && false) body := rfl
    rw [minus, Bool.and_false, bareAfter_words words.2]
    exact ⟨false, rfl, fun _ => rfl⟩

theorem bareAfter_of_infix {body text : List Char} (words : ∀ c ∈ body, isWord c = true)
    (h : '(' :: (body ++ [')']) <:+: text) (bare : Bool) : bareAfter bare text = none := by
  obtain ⟨before, after, rfl⟩ := h
  rw [bareAfter_append, bareAfter_append]
  cases bareAfter bare before with
  | none => rfl
  | some b =>
    have opened : bareAfter b ('(' :: (body ++ [')'])) = bareAfter true (body ++ [')']) := rfl
    rw [Option.bind_some, opened, bareAfter_append, bareAfter_words words]
    rfl

end Text

end Reprise
