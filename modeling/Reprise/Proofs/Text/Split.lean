import Reprise.Text.Occurs

/-!
Where a text ends that is followed by another: a run of characters of one kind is told from what
comes after it if that starts with a character of another kind.
-/
set_option autoImplicit false

namespace Reprise

namespace Text

/-- The text is empty or starts with a character that is not of the kind. -/
def Stops (kind : Char → Bool) (text : List Char) : Prop := ∀ c ∈ text.head?, kind c = false

variable {kind : Char → Bool}

@[simp] theorem stops_nil : Stops kind [] := by simp [Stops]

@[simp] theorem stops_cons {c : Char} {text : List Char} :
    Stops kind (c :: text) ↔ kind c = false := by simp [Stops]

theorem run_inj {a b s t : List Char} (ha : ∀ c ∈ a, kind c = true) (hb : ∀ c ∈ b, kind c = true)
    (hs : Stops kind s) (ht : Stops kind t) (h : a ++ s = b ++ t) : a = b ∧ s = t := by
  induction a generalizing b with
  | nil =>
    cases b with
    | nil => exact ⟨rfl, h⟩
    | cons y b =>
      subst h
      have stop := stops_cons.mp hs
      rw [hb y List.mem_cons_self] at stop
      cases stop
  | cons x a ih =>
    cases b with
    | nil =>
      subst h
      have stop := stops_cons.mp ht
      rw [ha x List.mem_cons_self] at stop
      cases stop
    | cons y b =>
      obtain ⟨rfl, rest⟩ := List.cons.inj h
      obtain ⟨rfl, same⟩ := ih (fun c hc => ha c (List.mem_cons_of_mem _ hc))
        (fun c hc => hb c (List.mem_cons_of_mem _ hc)) rest
      exact ⟨rfl, same⟩

end Text

end Reprise
