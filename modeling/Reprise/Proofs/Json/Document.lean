import Reprise.Proofs.Json.Scalar

/-!
Documents are read back from their texts, if they nest no deeper than a reader goes and their numbers
are whole and have 64 bits.
-/
set_option autoImplicit false

namespace Reprise

namespace Json

mutual

/-- All numbers are whole and have 64 bits, and every part has a value. -/
def Exact : Json → Prop
  | .null | .bool _ | .text _ => True
  | .int n => IsWord64 n
  | .array items => ExactItems items
  | .object fields => ExactFields fields
  | .float _ | .void | .nameless | .fault => False

def ExactItems : List Json → Prop
  | [] => True
  | item :: rest => item.Exact ∧ ExactItems rest

def ExactFields : List (String × Json) → Prop
  | [] => True
  | (_, value) :: rest => value.Exact ∧ ExactFields rest

end

theorem putItems_cons (item next : Json) (more : List Json) (rest : List Char) :
    putItems (item :: next :: more) rest = item.put (',' :: putItems (next :: more) rest) := by
  rw [putItems]
  exact nofun

theorem putFields_cons (name : String) (value : Json) (next : String × Json)
    (more : List (String × Json)) (rest : List Char) :
    putFields ((name, value) :: next :: more) rest =
      putQuoted name (':' :: value.put (',' :: putFields (next :: more) rest)) := by
  rw [putFields]
  exact nofun

section Lengths

theorem length_le_putScalar (j : Json) (rest : List Char) :
    rest.length ≤ (j.putScalar rest).length := by
  have behind : ∀ text : List Char, rest.length ≤ (text ++ rest).length := by simp
  cases j with
  | null | int n => exact behind _
  | bool b => cases b <;> exact behind _
  | float x =>
    rw [putScalar]
    split <;> exact behind _
  | text s =>
    simp only [putScalar, putQuoted, List.length_cons, List.length_append]
    omega
  | array items | object fields | void | nameless | fault => exact Nat.le_refl _

theorem length_lt_putQuoted (s : String) (rest : List Char) :
    rest.length < (putQuoted s rest).length := by
  simp only [putQuoted, List.length_cons, List.length_append]
  omega

mutual

theorem length_le_put : ∀ (j : Json) (rest : List Char), rest.length ≤ (j.put rest).length
  | .array items, rest => by
    have inside := length_le_putItems items (']' :: rest)
    simp only [put, List.length_cons] at inside ⊢
    omega
  | .object fields, rest => by
    have inside := length_le_putFields fields ('\x7d' :: rest)
    simp only [put, List.length_cons] at inside ⊢
    omega
  | .null, rest | .bool _, rest | .int _, rest | .float _, rest | .text _, rest | .void, rest
  | .nameless, rest | .fault, rest => by
    rw [put]
    · exact length_le_putScalar _ rest
    all_goals exact nofun

theorem length_le_putItems : ∀ (items : List Json) (rest : List Char),
    rest.length ≤ (putItems items rest).length
  | [], rest => Nat.le_refl _
  | [item], rest => length_le_put item rest
  | item :: next :: more, rest => by
    have first := length_le_put item (',' :: putItems (next :: more) rest)
    have others := length_le_putItems (next :: more) rest
    rw [putItems_cons]
    rw [List.length_cons] at first
    omega

theorem length_le_putFields : ∀ (fields : List (String × Json)) (rest : List Char),
    rest.length ≤ (putFields fields rest).length
  | [], rest => Nat.le_refl _
  | [(name, value)], rest => by
    have field := length_lt_putQuoted name (':' :: value.put rest)
    have inside := length_le_put value rest
    simp only [putFields, List.length_cons] at field inside ⊢
    omega
  | (name, value) :: next :: more, rest => by
    have field := length_lt_putQuoted name (':' :: value.put (',' :: putFields (next :: more) rest))
    have inside := length_le_put value (',' :: putFields (next :: more) rest)
    have others := length_le_putFields (next :: more) rest
    rw [putFields_cons]
    simp only [List.length_cons] at field inside
    omega

end

end Lengths

section Heads

theorem endsNumber_nil : EndsNumber [] := by simp [EndsNumber]

theorem endsNumber_cons {c : Char} {rest : List Char} (h : c = ',' ∨ c = ']' ∨ c = '\x7d') :
    EndsNumber (c :: rest) := by
  intro d same
  cases same
  rcases h with rfl | rfl | rfl <;> decide

/-- How the text of a document begins: with no blank and no closing bracket. -/
def Begins (text : List Char) : Prop :=
  ∃ c rest, text = c :: rest ∧ isBlank c = false ∧ c ≠ ']'

def BeginsScalar (text : List Char) : Prop :=
  ∃ c rest, text = c :: rest ∧ isBlank c = false ∧ c ≠ ']' ∧ c ≠ '[' ∧ c ≠ '\x7b'

theorem beginsScalar_toString (n : Int) (rest : List Char) :
    BeginsScalar ((toString n).toList ++ rest) := by
  obtain ⟨c, tail, text, head⟩ := Text.exists_head_toString n
  refine ⟨c, tail ++ rest, by rw [text, List.cons_append], ?_⟩
  cases head with
  | inl minus =>
    rw [minus]
    decide
  | inr digit =>
    refine ⟨?_, ?_, ?_, ?_⟩
    · cases blank : isBlank c with
      | false => rfl
      | true =>
        simp only [isBlank, Bool.or_eq_true, beq_iff_eq, or_assoc] at blank
        rcases blank with rfl | rfl | rfl | rfl <;> cases digit
    all_goals
      rintro rfl
      cases digit

end Heads

theorem readValue_scalar {text : List Char} (h : BeginsScalar text) (fuel depth : Nat) :
    readValue (fuel + 1) depth text = orFault (readScalar text) := by
  obtain ⟨c, rest, rfl, solid, -, no_array, no_object⟩ := h
  have blanks : skipBlanks (c :: rest) = c :: rest := List.dropWhile_cons_of_neg (by simp [solid])
  rw [readValue, blanks]
  split
  · rename_i same
    cases same
    exact absurd rfl no_array
  · rename_i same
    cases same
    exact absurd rfl no_object
  · rfl

def isScalar : Json → Bool
  | .array _ | .object _ => false
  | _ => true

theorem put_eq_putScalar {j : Json} (scalar : j.isScalar = true) (rest : List Char) :
    j.put rest = j.putScalar rest := by
  cases j with
  | array items => cases scalar
  | object fields => cases scalar
  | _ => rw [put] <;> exact nofun

theorem readScalar_putScalar {j : Json} (exact_j : j.Exact) (scalar : j.isScalar = true)
    {rest : List Char} (ends : EndsNumber rest) :
    BeginsScalar (j.putScalar rest) ∧ readScalar (j.putScalar rest) = some (j, rest) := by
  cases j with
  | null =>
    exact ⟨⟨'n', "ull".toList ++ rest, by simp [putScalar], by decide⟩,
      by simp [putScalar, readScalar, afterWord]⟩
  | bool b =>
    cases b with
    | true =>
      exact ⟨⟨'t', "rue".toList ++ rest, by simp [putScalar], by decide⟩,
        by simp [putScalar, readScalar, afterWord]⟩
    | false =>
      exact ⟨⟨'f', "alse".toList ++ rest, by simp [putScalar], by decide⟩,
        by simp [putScalar, readScalar, afterWord]⟩
  | int n => exact ⟨beginsScalar_toString n rest, readScalar_toString exact_j ends⟩
  | text s => exact ⟨⟨'"', _, rfl, by decide⟩, readText_putQuoted s rest⟩
  | array items => cases scalar
  | object fields => cases scalar
  | float x => cases exact_j
  | void => cases exact_j
  | nameless => cases exact_j
  | fault => cases exact_j

theorem begins_put {j : Json} (exact_j : j.Exact) {rest : List Char} (ends : EndsNumber rest) :
    Begins (j.put rest) := by
  cases scalar : j.isScalar with
  | true =>
    rw [put_eq_putScalar scalar]
    obtain ⟨c, tail, text, solid, no_end, -⟩ := (readScalar_putScalar exact_j scalar ends).1
    exact ⟨c, tail, text, solid, no_end⟩
  | false =>
    cases j with
    | array items => exact ⟨'[', _, put.eq_1 .., by decide⟩
    | object fields => exact ⟨'\x7b', _, put.eq_2 .., by decide⟩
    | _ => cases scalar

theorem begins_putItems {item : Json} {more : List Json} (exact_items : ExactItems (item :: more))
    (rest : List Char) : Begins (putItems (item :: more) (']' :: rest)) := by
  cases more with
  | nil => exact begins_put exact_items.1 (endsNumber_cons (by simp))
  | cons next more => exact begins_put exact_items.1 (endsNumber_cons (by simp))

theorem readValue_array {depth : Nat} (below : depth ≠ 0) {text : List Char} (h : Begins text)
    (fuel : Nat) : readValue (fuel + 1) depth ('[' :: text) =
      (.array (readItems fuel (depth - 1) text).1, (readItems fuel (depth - 1) text).2) := by
  obtain ⟨c, rest, rfl, solid, no_end⟩ := h
  have blanks : skipBlanks (c :: rest) = c :: rest := List.dropWhile_cons_of_neg (by simp [solid])
  have bracket : skipBlanks ('[' :: c :: rest) = '[' :: c :: rest := rfl
  rw [readValue, bracket]
  simp only [if_neg below, blanks]
  split
  · rename_i same
    cases same
    exact absurd rfl no_end
  · rfl

theorem readValue_object {depth : Nat} (below : depth ≠ 0) (name : String) (text : List Char)
    (fuel : Nat) : readValue (fuel + 1) depth ('\x7b' :: putQuoted name text) =
      (.object (readFields fuel (depth - 1) (putQuoted name text)).1,
        (readFields fuel (depth - 1) (putQuoted name text)).2) := by
  have brace : ∀ rest, skipBlanks ('\x7b' :: rest) = '\x7b' :: rest := fun _ => rfl
  have quote : skipBlanks (putQuoted name text) = putQuoted name text := rfl
  rw [readValue, brace]
  simp only [if_neg below, quote]
  rfl

theorem exists_putFields_eq (name : String) (value : Json) (more : List (String × Json))
    (rest : List Char) : ∃ text, putFields ((name, value) :: more) rest = putQuoted name text := by
  cases more with
  | nil => exact ⟨_, putFields.eq_2 ..⟩
  | cons next more => exact ⟨_, putFields_cons ..⟩

def fieldsFrom (fuel depth : Nat) (name : String) :
    Json × Option (List Char) → List (String × Json) × Option (List Char)
  | (value, none) => ([(name, value)], none)
  | (value, some rest) =>
    match skipBlanks rest with
    | '\x7d' :: rest => ([(name, value)], some rest)
    | ',' :: rest =>
      ((name, value) :: (readFields fuel depth rest).1, (readFields fuel depth rest).2)
    | _ => ([(name, value), ("", .fault)], none)

theorem readFields_putQuoted (name : String) (text : List Char) (fuel depth : Nat) :
    readFields (fuel + 1) depth (putQuoted name (':' :: text)) =
      fieldsFrom fuel depth name (readValue fuel depth text) := by
  have quote : ∀ rest, skipBlanks ('"' :: rest) = '"' :: rest := fun _ => rfl
  have colon : skipBlanks (':' :: text) = ':' :: text := rfl
  rw [putQuoted, readFields, quote]
  simp only [readQuoted_flatMap, String.ofList_toList, colon]
  rfl

mutual

/-- Fuel for every character, twice, is enough. -/
theorem readValue_put : ∀ (j : Json) (fuel depth : Nat) (rest : List Char), j.Exact →
    EndsNumber rest → j.depth ≤ depth → 2 * (j.put rest).length < fuel →
    readValue fuel depth (j.put rest) = (j, some rest)
  | .array [], fuel + 1, depth, rest, _, _, deep, _ => by
    have below : depth ≠ 0 := by
      simp only [Json.depth] at deep
      omega
    have bracket : skipBlanks ('[' :: ']' :: rest) = '[' :: ']' :: rest := rfl
    have closing : skipBlanks (']' :: rest) = ']' :: rest := rfl
    rw [put, putItems, readValue, bracket]
    simp only [if_neg below, closing]
  | .array (item :: more), fuel + 1, depth, rest, exact_j, _, deep, enough => by
    simp only [Json.depth, put, List.length_cons] at deep enough
    have items := readItems_putItems item more fuel (depth - 1) rest exact_j (by omega) (by omega)
    rw [put, readValue_array (by omega) (begins_putItems exact_j rest), items]
  | .object [], fuel + 1, depth, rest, _, _, deep, _ => by
    have below : depth ≠ 0 := by
      simp only [Json.depth] at deep
      omega
    have brace : skipBlanks ('\x7b' :: '\x7d' :: rest) = '\x7b' :: '\x7d' :: rest := rfl
    have closing : skipBlanks ('\x7d' :: rest) = '\x7d' :: rest := rfl
    rw [put, putFields, readValue, brace]
    simp only [if_neg below, closing]
  | .object ((name, value) :: more), fuel + 1, depth, rest, exact_j, _, deep, enough => by
    simp only [Json.depth, put, List.length_cons] at deep enough
    have fields := readFields_putFields name value more fuel (depth - 1) rest exact_j
      (by omega) (by omega)
    obtain ⟨text, quoted⟩ := exists_putFields_eq name value more ('\x7d' :: rest)
    rw [put, quoted, readValue_object (by omega), ← quoted, fields]
  | .null, fuel + 1, depth, rest, exact_j, ends, _, _
  | .bool _, fuel + 1, depth, rest, exact_j, ends, _, _
  | .int _, fuel + 1, depth, rest, exact_j, ends, _, _
  | .text _, fuel + 1, depth, rest, exact_j, ends, _, _ => by
    obtain ⟨begins, read⟩ := readScalar_putScalar exact_j rfl ends
    rw [put_eq_putScalar rfl, readValue_scalar begins, read]
    rfl

theorem readItems_putItems : ∀ (item : Json) (more : List Json) (fuel depth : Nat)
    (rest : List Char), ExactItems (item :: more) → depthOfItems (item :: more) ≤ depth →
    2 * (putItems (item :: more) (']' :: rest)).length + 1 < fuel →
    readItems fuel depth (putItems (item :: more) (']' :: rest)) = (item :: more, some rest)
  | item, [], fuel + 1, depth, rest, exact_items, deep, enough => by
    simp only [depthOfItems, putItems] at deep enough
    have value := readValue_put item fuel depth (']' :: rest) exact_items.1
      (endsNumber_cons (by simp)) (by omega) (by omega)
    rw [putItems, readItems, value]
    rfl
  | item, next :: more, fuel + 1, depth, rest, exact_items, deep, enough => by
    rw [depthOfItems] at deep
    rw [putItems_cons] at enough
    have longer := length_le_put item (',' :: putItems (next :: more) (']' :: rest))
    rw [List.length_cons] at longer
    have value := readValue_put item fuel depth (',' :: putItems (next :: more) (']' :: rest))
      exact_items.1 (endsNumber_cons (by simp)) (by omega) (by omega)
    have others := readItems_putItems next more fuel depth rest exact_items.2 (by omega) (by omega)
    have comma : skipBlanks (',' :: putItems (next :: more) (']' :: rest)) =
      ',' :: putItems (next :: more) (']' :: rest) := rfl
    rw [putItems_cons, readItems, value]
    simp only [comma, others]

theorem readFields_putFields : ∀ (name : String) (value : Json) (more : List (String × Json))
    (fuel depth : Nat) (rest : List Char), ExactFields ((name, value) :: more) →
    depthOfFields ((name, value) :: more) ≤ depth →
    2 * (putFields ((name, value) :: more) ('\x7d' :: rest)).length + 1 < fuel →
    readFields fuel depth (putFields ((name, value) :: more) ('\x7d' :: rest)) =
      ((name, value) :: more, some rest)
  | name, value, [], fuel + 1, depth, rest, exact_fields, deep, enough => by
    simp only [depthOfFields, putFields] at deep enough
    have longer := length_lt_putQuoted name (':' :: value.put ('\x7d' :: rest))
    rw [List.length_cons] at longer
    have read := readValue_put value fuel depth ('\x7d' :: rest) exact_fields.1
      (endsNumber_cons (by simp)) (by omega) (by omega)
    rw [putFields, readFields_putQuoted, read]
    rfl
  | name, value, (other, field) :: more, fuel + 1, depth, rest, exact_fields, deep, enough => by
    rw [depthOfFields] at deep
    rw [putFields_cons] at enough
    have longer := length_lt_putQuoted name
      (':' :: value.put (',' :: putFields ((other, field) :: more) ('\x7d' :: rest)))
    have inside := length_le_put value (',' :: putFields ((other, field) :: more) ('\x7d' :: rest))
    rw [List.length_cons] at longer inside
    have read := readValue_put value fuel depth
      (',' :: putFields ((other, field) :: more) ('\x7d' :: rest)) exact_fields.1
      (endsNumber_cons (by simp)) (by omega) (by omega)
    have others := readFields_putFields other field more fuel depth rest exact_fields.2
      (by omega) (by omega)
    have comma : skipBlanks (',' :: putFields ((other, field) :: more) ('\x7d' :: rest)) =
      ',' :: putFields ((other, field) :: more) ('\x7d' :: rest) := rfl
    rw [putFields_cons, readFields_putQuoted, read]
    simp only [fieldsFrom, comma, others]

end

/-- A document is read back from its text. -/
theorem read_render {j : Json} (exact_j : j.Exact) (deep : j.depth ≤ depthLimit) :
    read j.render = (j, true) := by
  have whole := readValue_put j (2 * (j.put []).length + 2) depthLimit [] exact_j endsNumber_nil deep
    (by omega)
  rw [read, render, String.toList_ofList, whole]
  rfl

end Json

end Reprise
