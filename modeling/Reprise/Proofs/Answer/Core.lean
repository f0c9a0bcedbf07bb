import Reprise.Answer.Core
import Reprise.Proofs.Expr.Walk

/-!
The clauses of a core: which of the collected clauses are kept, and what containment asks of them.
-/
set_option autoImplicit false

namespace Reprise

namespace Core

theorem ext {c d : Core} (h : c.byText.entries = d.byText.entries) : c = d := by
  cases c; cases d
  simpa using OrderedMap.ext h

theorem mem_entries_of_mem_clauses {c : Core} {k : Expr} (h : k ∈ c.clauses) :
    (k.canonical, k) ∈ c.byText.entries := by
  obtain ⟨⟨text, clause⟩, mem, rfl⟩ := List.mem_map.mp h
  have text_eq := c.keyed _ mem
  exact text_eq ▸ mem

theorem mem_texts {c : Core} {text : String} :
    text ∈ c.texts ↔ ∃ k ∈ c.clauses, k.canonical = text := by
  constructor
  · intro h
    obtain ⟨⟨_, k⟩, mem, rfl⟩ := List.mem_map.mp h
    exact ⟨k, List.mem_map_of_mem mem, (c.keyed _ mem).symm⟩
  · rintro ⟨k, mem, rfl⟩
    exact List.mem_map_of_mem (mem_entries_of_mem_clauses mem)

theorem mem_clauses_replace {c : Core} {k clause : Expr} (h : k ∈ (c.replace clause).clauses) :
    k = clause ∨ k ∈ c.clauses := by
  obtain ⟨entry, mem, rfl⟩ := List.mem_map.mp h
  cases mem_insertEntry mem with
  | inl new => exact Or.inl (new ▸ rfl)
  | inr old => exact Or.inr (List.mem_map_of_mem old)

theorem mem_texts_replace {c : Core} {text : String} {clause : Expr} :
    text ∈ (c.replace clause).texts ↔ text = clause.canonical ∨ text ∈ c.texts :=
  OrderedMap.mem_keys_insert

theorem mem_foldl_replace {k : Expr} (clauses : List Expr) (c : Core)
    (h : k ∈ (clauses.foldl replace c).clauses) : k ∈ c.clauses ∨ k ∈ clauses := by
  induction clauses generalizing c with
  | nil => exact Or.inl h
  | cons clause rest ih =>
    cases ih (c.replace clause) h with
    | inl early =>
      cases mem_clauses_replace early with
      | inl same => exact Or.inr (same ▸ List.mem_cons_self)
      | inr old => exact Or.inl old
    | inr later => exact Or.inr (List.mem_cons_of_mem _ later)

theorem mem_texts_foldl_replace {text : String} (clauses : List Expr) (c : Core) :
    text ∈ (clauses.foldl replace c).texts ↔
      text ∈ c.texts ∨ ∃ k ∈ clauses, k.canonical = text := by
  induction clauses generalizing c with
  | nil => simp
  | cons clause rest ih =>
    rw [List.foldl_cons, ih, mem_texts_replace]
    simp only [List.mem_cons, exists_eq_or_imp, eq_comm (a := text), or_left_comm, or_assoc]

theorem mem_clauses_ofList {k : Expr} {clauses : List Expr} (h : k ∈ (ofList clauses).clauses) :
    k ∈ clauses :=
  (mem_foldl_replace clauses empty h).resolve_left List.not_mem_nil

theorem exists_clause_of_mem {clause : Expr} {clauses : List Expr} (h : clause ∈ clauses) :
    ∃ k ∈ (ofList clauses).clauses, k.canonical = clause.canonical :=
  mem_texts.mp ((mem_texts_foldl_replace clauses empty).mpr (Or.inr ⟨clause, h, rfl⟩))

def TextsTell (clauses : List Expr) : Prop :=
  ∀ k ∈ clauses, ∀ l ∈ clauses, k.canonical = l.canonical → k = l

theorem mem_ofList {clauses : List Expr} (tell : TextsTell clauses) {k : Expr} (mem : k ∈ clauses) :
    k ∈ (ofList clauses).clauses := by
  obtain ⟨l, stored, same⟩ := exists_clause_of_mem mem
  rw [← tell l (mem_clauses_ofList stored) k mem same]
  exact stored

theorem textsTell_clauses (c : Core) : TextsTell c.clauses := by
  intro k hk l hl same
  have found_k := OrderedMap.get?_eq_some_iff.mpr (mem_entries_of_mem_clauses hk)
  have found_l := OrderedMap.get?_eq_some_iff.mpr (mem_entries_of_mem_clauses hl)
  rw [same, found_l] at found_k
  exact (Option.some.inj found_k).symm

theorem foldl_insert_entries {entries : List (String × Expr)} (keyed : KeyedByText entries) (c : Core)
    (h : Increasing (c.byText.entries ++ entries)) :
    ((entries.map Prod.snd).foldl insert c).byText.entries = c.byText.entries ++ entries := by
  induction entries generalizing c with
  | nil => simp
  | cons entry rest ih =>
    obtain ⟨text, clause⟩ := entry
    have text_eq : text = clause.canonical := keyed _ List.mem_cons_self
    subst text_eq
    have above : ∀ e ∈ c.byText.entries, compare e.1 clause.canonical = .lt := fun e he =>
      (List.pairwise_append.mp h).2.2 e he _ List.mem_cons_self
    have unknown : c.hasText clause.canonical = false := by
      rw [hasText, Bool.eq_false_iff]
      intro found
      obtain ⟨e, he, same⟩ := List.mem_map.mp (OrderedMap.get?_isSome_iff.mp found)
      have lt := above e he
      rw [same] at lt
      simp at lt
    have added : (c.insert clause).byText.entries = c.byText.entries ++ [(clause.canonical, clause)] := by
      rw [insert, unknown]
      exact insertEntry_of_above clause above
    rw [List.map_cons, List.foldl_cons, ih (fun e he => keyed e (List.mem_cons_of_mem _ he)), added]
    · simp
    · simpa [added] using h

theorem ofFirsts_clauses (c : Core) : ofFirsts c.clauses = c :=
  ext (foldl_insert_entries c.keyed empty c.byText.increasing)

theorem isContainedIn_iff {c : Core} {target : Expr} :
    c.isContainedIn target = true ↔ c.clauses ≠ [] ∧
      (∀ k ∈ c.clauses,
        Text.occursIn ("(" ++ k.canonical ++ ")").toList target.canonical.toList = true) ∧
      ∀ k ∈ c.clauses, ∀ v ∈ k.vars, v ∈ target.vars := by
  have nonempty : c.isEmpty = false ↔ c.clauses ≠ [] := by
    rw [isEmpty, OrderedMap.isEmpty, clauses, OrderedMap.values, List.isEmpty_eq_false_iff]
    exact not_congr List.map_eq_nil_iff.symm
  simp only [isContainedIn, Bool.and_eq_true, Bool.not_eq_true', nonempty, List.all_eq_true,
    OrderedSet.isSubsetOf_iff, and_assoc]
  refine and_congr Iff.rfl (and_congr ?_ Iff.rfl)
  simp only [mem_texts]
  exact ⟨fun h k mem => h _ ⟨k, mem, rfl⟩, fun h text ⟨k, mem, same⟩ => same ▸ h k mem⟩

end Core

end Reprise
