import Mathlib.Logic.Basic
import Reprise.Proofs.Expr.Tree
import Reprise.Proofs.Json.Decode

/-!
The documents of expressions, decoded without regard to the number of operands. Decoding an expression
gives what stands in the document, down to the last operand, and only where every operator has the
operands it takes.
-/
set_option autoImplicit false

namespace Reprise

namespace Json

variable {α σ γ : Type}

theorem map_eq_ok_iff {ε β : Type} {x : Except ε α} {f : α → β} {b : β} :
    x.map f = .ok b ↔ ∃ a, x = .ok a ∧ f a = b := by
  cases x <;> simp [Except.map]

theorem decodeItems_eq_ok {decode : Decoder α} {item : Json} {rest : List Json} {found : List α} :
    decodeItems decode (item :: rest) = .ok found ↔
      ∃ a others, decode item = .ok a ∧ decodeItems decode rest = .ok others ∧ a :: others = found := by
  rw [decodeItems]
  cases decode item with
  | error f => simp
  | ok a => simp [map_eq_ok_iff]

theorem asChoice_eq_ok {source : Source} {carrying : String → Option (Decoder α)} {j : Json} {a : α} :
    asChoice source (fun _ => none) carrying j = .ok a ↔
      ∃ name value decode,
        j = .object [(name, value)] ∧ carrying name = some decode ∧ decode value = .ok a := by
  constructor
  · intro chosen
    unfold asChoice at chosen
    split at chosen
    · cases chosen
    · rename_i name value rest
      split at chosen
      · cases chosen
      · cases known : carrying name with
        | none => simp [known] at chosen
        | some decode =>
          simp only [known] at chosen
          split at chosen
          · cases chosen
          · rename_i b decoded
            split at chosen
            · rename_i last
              cases chosen
              exact ⟨name, value, decode, by rw [List.isEmpty_iff.mp last], known, decoded⟩
            · cases chosen
    · cases chosen
  · rintro ⟨name, value, decode, rfl, known, decoded⟩
    simp [asChoice, known, decoded]

theorem chooseNode_eq_ok {source : Source} {onVar onConst onOp : Decoder α} {j : Json} {a : α} :
    asChoice source (fun _ => none) (fun name =>
        if name = "var" then some onVar
        else if name = "const" then some onConst
        else if name = "op" then some onOp
        else none) j = .ok a ↔
      (∃ value, j = .object [("var", value)] ∧ onVar value = .ok a) ∨
      (∃ value, j = .object [("const", value)] ∧ onConst value = .ok a) ∨
      ∃ value, j = .object [("op", value)] ∧ onOp value = .ok a := by
  rw [asChoice_eq_ok]
  constructor
  · rintro ⟨name, value, decode, rfl, known, decoded⟩
    split at known
    · rename_i named
      cases known
      exact Or.inl ⟨value, by rw [named], decoded⟩
    · split at known
      · rename_i named
        cases known
        exact Or.inr (Or.inl ⟨value, by rw [named], decoded⟩)
      · split at known
        · rename_i named
          cases known
          exact Or.inr (Or.inr ⟨value, by rw [named], decoded⟩)
        · cases known
  · rintro (⟨value, rfl, decoded⟩ | ⟨value, rfl, decoded⟩ | ⟨value, rfl, decoded⟩)
    · exact ⟨_, value, _, rfl, rfl, decoded⟩
    · exact ⟨_, value, _, rfl, rfl, decoded⟩
    · exact ⟨_, value, _, rfl, rfl, decoded⟩

theorem enterFields_eq_ok {fields : List (Field σ)} {seen : List String} {name : String} {value : Json}
    {rest : List (String × Json)} {s s' : σ} :
    enterFields fields seen ((name, value) :: rest) s = .ok s' ↔
      value ≠ .nameless ∧
      ((fields.find? (·.name == name) = none ∧ value.isWhole = true ∧
          enterFields fields seen rest s = .ok s') ∨
        ∃ field, fields.find? (·.name == name) = some field ∧ name ∉ seen ∧
          ∃ s₁, field.enter value s = .ok s₁ ∧ enterFields fields (name :: seen) rest s₁ = .ok s') := by
  by_cases nameless : value = .nameless
  · rw [nameless]
    simp [enterFields]
  · rw [enterFields.eq_def]
    cases found : fields.find? (·.name == name) with
    | none =>
      simp only [found]
      by_cases whole : value.isWhole = true <;> simp [nameless, whole]
    | some field =>
      simp only [found, List.contains_iff_mem]
      by_cases before : name ∈ seen
      · simp [before]
      · cases step : field.enter value s with
        | error f => simp [before, step]
        | ok s₁ => simp [before, step, nameless]

theorem enterFields_keeps {fields : List (Field σ)} (view : σ → γ) {seen : List String}
    {entries : List (String × Json)} {s s' : σ}
    (keeps : ∀ field ∈ fields, field.name ∉ seen →
      ∀ j s s', field.enter j s = .ok s' → view s' = view s)
    (entered : enterFields fields seen entries s = .ok s') : view s' = view s := by
  induction entries generalizing seen s with
  | nil =>
    cases entered
    rfl
  | cons entry rest ih =>
    obtain ⟨-, ⟨-, -, later⟩ | ⟨field, found, fresh, s₁, step, later⟩⟩ := enterFields_eq_ok.mp entered
    · exact ih keeps later
    · have name : field.name = entry.1 := by simpa using List.find?_some found
      have now := keeps field (List.mem_of_find?_eq_some found) (name ▸ fresh) _ _ _ step
      have kept := ih (fun field mem unseen => keeps field mem fun before =>
        unseen (List.mem_cons_of_mem _ before)) later
      rw [kept, now]

abbrev OperationDraft (α : Type) : Type := Option Operator × Option (List α)

def operationFields (source : Source) (operand : Decoder α) : List (Field (OperationDraft α)) :=
  [.of "operator" (Operator.decode source) fun d op => (some op, d.2),
   .of "operands" (asList operand) fun d found => (d.1, some found)]

theorem find?_operationFields (source : Source) (operand : Decoder α) (name : String) :
    (operationFields source operand).find? (·.name == name) =
      if name = "operator" then
        some (.of "operator" (Operator.decode source) fun d op => (some op, d.2))
      else if name = "operands" then
        some (.of "operands" (asList operand) fun d found => (d.1, some found))
      else none := by
  by_cases operator : name = "operator"
  · subst operator
    rfl
  · by_cases operands : name = "operands"
    · subst operands
      rfl
    · simp [operationFields, Field.of, operator, operands, Ne.symm operator, Ne.symm operands]

theorem enter_eq_ok {name : String} {decode : Decoder α} {keep : σ → α → σ} {j : Json} {s s' : σ} :
    (Field.of name decode keep).enter j s = .ok s' ↔ ∃ a, decode j = .ok a ∧ keep s a = s' :=
  map_eq_ok_iff

theorem enterOperation_eq_ok {source : Source} {operand : Decoder α} {seen : List String} {name : String}
    {value : Json} {rest : List (String × Json)} {d d' : OperationDraft α} :
    enterFields (operationFields source operand) seen ((name, value) :: rest) d = .ok d' ↔
      value ≠ .nameless ∧
      ((name ≠ "operator" ∧ name ≠ "operands" ∧ value.isWhole = true ∧
          enterFields (operationFields source operand) seen rest d = .ok d') ∨
        (name = "operator" ∧ name ∉ seen ∧ ∃ op, Operator.decode source value = .ok op ∧
          enterFields (operationFields source operand) (name :: seen) rest (some op, d.2) = .ok d') ∨
        (name = "operands" ∧ name ∉ seen ∧ ∃ found, value.asList operand = .ok found ∧
          enterFields (operationFields source operand) (name :: seen) rest (d.1, some found) = .ok d')) := by
  rw [enterFields_eq_ok, find?_operationFields]
  by_cases operator : name = "operator"
  · subst operator
    simp [enter_eq_ok, -Prod.exists]
  · by_cases operands : name = "operands"
    · subst operands
      simp [enter_eq_ok, -Prod.exists]
    · simp [operator, operands]

theorem enterItems_nil (fields : List (Field σ)) (s : σ) : enterItems fields [] s = .ok s := by
  cases fields <;> rfl

theorem enterItems_excess (item : Json) (rest : List Json) (s : σ) :
    enterItems [] (item :: rest) s = .error .malformed := rfl

theorem enterItems_eq_ok {field : Field σ} {fields : List (Field σ)} {item : Json} {rest : List Json}
    {s s' : σ} :
    enterItems (field :: fields) (item :: rest) s = .ok s' ↔
      ∃ s₁, field.enter item s = .ok s₁ ∧ enterItems fields rest s₁ = .ok s' := by
  rw [enterItems]
  cases field.enter item s <;> simp

theorem asRecord_array_eq_ok {fields : List (Field σ)} {required : Nat} {start s : σ} {items : List Json} :
    asRecord fields required start (.array items) = .ok s ↔
      required ≤ items.length ∧ enterItems fields items start = .ok s := by
  rw [asRecord]
  cases enterItems fields items start with
  | error f => simp
  | ok s =>
    by_cases short : items.length < required
    · simp [short, Nat.not_le.mpr short]
    · simp [short, Nat.not_lt.mp short]

theorem arrayOperation_eq_ok {source : Source} {operand : Decoder α} {items : List Json}
    {d : OperationDraft α} :
    asRecord (operationFields source operand) 2 (none, none) (.array items) = .ok d ↔
      ∃ a b, items = [a, b] ∧ ∃ op, Operator.decode source a = .ok op ∧
        ∃ found, b.asList operand = .ok found ∧ (some op, some found) = d := by
  rw [asRecord_array_eq_ok, operationFields]
  match items with
  | [] => simp
  | [a] => simp
  | [a, b] => simp [enterItems_eq_ok, enter_eq_ok, enterItems_nil, and_assoc, -Prod.exists]
  | a :: b :: c :: rest => simp [enterItems_eq_ok, enterItems_excess]

theorem operands_kept {source : Source} {operand : Decoder α} {seen : List String}
    {entries : List (String × Json)} {d d' : OperationDraft α} (before : "operands" ∈ seen)
    (entered : enterFields (operationFields source operand) seen entries d = .ok d') : d'.2 = d.2 := by
  refine enterFields_keeps Prod.snd (fun field mem fresh j d d' step => ?_) entered
  simp only [operationFields, List.mem_cons, List.not_mem_nil, or_false] at mem
  cases mem with
  | inl operator =>
    subst operator
    obtain ⟨op, -, rfl⟩ := enter_eq_ok.mp step
    rfl
  | inr operands =>
    subst operands
    exact absurd before fresh

def decodeParts (source : Source) (operand : Decoder α) (j : Json) :
    Except DecodeFault (Operator × List α) := do
  let d ← j.asCarried source (operationFields source operand) 2 (none, none)
  return (← require d.1, ← require d.2)

theorem decodeParts_eq_ok {source : Source} {operand : Decoder α} {j : Json} {op : Operator}
    {found : List α} :
    decodeParts source operand j = .ok (op, found) ↔
      j.asCarried source (operationFields source operand) 2 (none, none) = .ok (some op, some found) := by
  rw [decodeParts]
  match j.asCarried source (operationFields source operand) 2 (none, none) with
  | .error f => simp [bind, Except.bind]
  | .ok (none, none) => simp [bind, Except.bind, require]
  | .ok (some op, none) => simp [bind, Except.bind, require]
  | .ok (none, some found) => simp [bind, Except.bind, require]
  | .ok (some op, some found) => simp [bind, Except.bind, require, pure, Except.pure]

theorem decodeText_eq_ok {decode : Decoder α} {text : String} {a : α} :
    decodeText decode text = .ok a ↔ (read text).2 = true ∧ decode (read text).1 = .ok a := by
  rw [decodeText]
  rcases read text with ⟨j, complete⟩
  cases decoded : decode j with
  | error f => simp [decoded]
  | ok b => cases complete <;> simp [decoded]

end Json

namespace Tree

def decodeWithin (source : Json.Source) : Nat → Json.Decoder Tree
  | 0, _ => .error .malformed
  | depth + 1, j =>
    j.asChoice source (fun _ => none) fun name =>
      if name = "var" then some fun j => (Variable.decode source j).map .var
      else if name = "const" then some fun j => (Constant.decode source j).map .const
      else if name = "op" then
        some fun j =>
          (j.decodeParts source (decodeWithin source depth)).map fun (op, trees) => .operation op trees
      else none

def decode (source : Json.Source) : Json.Decoder Tree := fun j => decodeWithin source (j.depth + 1) j

end Tree

/-- What is decoded as an expression is what is decoded as its tree. -/
def DecodesTrees (operand : Json.Decoder Expr) (raw : Json.Decoder Tree) : Prop :=
  ∀ j e, operand j = .ok e ↔ raw j = .ok e.tree

namespace DecodesTrees

variable {operand : Json.Decoder Expr} {raw : Json.Decoder Tree} {source : Json.Source}

def trees (d : Json.OperationDraft Expr) : Json.OperationDraft Tree := (d.1, d.2.map (List.map Expr.tree))

theorem trees_inj {d d' : Json.OperationDraft Expr} : trees d = trees d' ↔ d = d' := by
  constructor
  · intro same
    obtain ⟨operator, operands⟩ := Prod.mk.inj same
    exact Prod.ext operator (Option.map_injective (fun _ _ => Expr.map_tree_inj) operands)
  · rintro rfl
    rfl

theorem items (h : DecodesTrees operand raw) (js : List Json) (es : List Expr) :
    Json.decodeItems operand js = .ok es ↔ Json.decodeItems raw js = .ok (es.map Expr.tree) := by
  induction js generalizing es with
  | nil => simp [Json.decodeItems, eq_comm (a := [])]
  | cons j js ih =>
    rw [Json.decodeItems_eq_ok, Json.decodeItems_eq_ok]
    constructor
    · rintro ⟨e, others, first, later, rfl⟩
      exact ⟨e.tree, others.map Expr.tree, (h j e).mp first, (ih others).mp later, rfl⟩
    · rintro ⟨t, trees, first, later, same⟩
      obtain ⟨e, others, rfl, rfl, rfl⟩ := List.map_eq_cons_iff.mp same.symm
      exact ⟨e, others, (h j e).mpr first, (ih others).mpr later, rfl⟩

theorem list (h : DecodesTrees operand raw) (j : Json) (es : List Expr) :
    j.asList operand = .ok es ↔ j.asList raw = .ok (es.map Expr.tree) := by
  cases j with
  | array js => exact h.items js es
  | _ => simp [Json.asList]

theorem fields (h : DecodesTrees operand raw) (seen : List String) (entries : List (String × Json))
    (d d' : Json.OperationDraft Expr) :
    Json.enterFields (Json.operationFields source operand) seen entries d = .ok d' ↔
      Json.enterFields (Json.operationFields source raw) seen entries (trees d) = .ok (trees d') := by
  induction entries generalizing seen d with
  | nil => simp [Json.enterFields, trees_inj]
  | cons entry rest ih =>
    rw [Json.enterOperation_eq_ok, Json.enterOperation_eq_ok, ih]
    refine and_congr Iff.rfl (or_congr Iff.rfl (or_congr ?_ ?_))
    · simp only [ih]
      rfl
    · refine and_congr_right fun operands => and_congr_right fun fresh => ?_
      simp only [ih]
      constructor
      · rintro ⟨es, decoded, later⟩
        exact ⟨es.map Expr.tree, (h.list _ es).mp decoded, later⟩
      · rintro ⟨found, decoded, later⟩
        -- Operands that do not fit are never replaced.
        have kept := Json.operands_kept (operands ▸ List.mem_cons_self) later
        obtain ⟨es, held, rfl⟩ := Option.map_eq_some_iff.mp kept
        exact ⟨es, (h.list _ es).mpr decoded, later⟩

theorem carried (h : DecodesTrees operand raw) (j : Json) (d : Json.OperationDraft Expr) :
    j.asCarried source (Json.operationFields source operand) 2 (none, none) = .ok d ↔
      j.asCarried source (Json.operationFields source raw) 2 (none, none) = .ok (trees d) := by
  cases j with
  | object entries =>
    rw [Json.asCarried_object, Json.asCarried_object]
    exact h.fields [] entries (none, none) d
  | array items =>
    cases source with
    | tree => simp [Json.asCarried]
    | text =>
      simp only [Json.asCarried, Json.arrayOperation_eq_ok]
      constructor
      · rintro ⟨a, b, rfl, op, operator, es, listed, rfl⟩
        exact ⟨a, b, rfl, op, operator, es.map Expr.tree, (h.list b es).mp listed, rfl⟩
      · rintro ⟨a, b, rfl, op, operator, found, listed, same⟩
        obtain ⟨same_op, same_operands⟩ := Prod.mk.inj same
        obtain ⟨es, held, rfl⟩ := Option.map_eq_some_iff.mp same_operands.symm
        exact ⟨a, b, rfl, op, operator, es, (h.list b es).mpr listed, Prod.ext same_op held.symm⟩
  | _ => simp [Json.asCarried, Json.asRecord]

theorem parts (h : DecodesTrees operand raw) (j : Json) (op : Operator) (es : List Expr) :
    j.decodeParts source operand = .ok (op, es) ↔ j.decodeParts source raw = .ok (op, es.map Expr.tree) := by
  rw [Json.decodeParts_eq_ok, Json.decodeParts_eq_ok, h.carried]
  rfl

end DecodesTrees

namespace Tree

theorem decodeWithin_succ {source : Json.Source} {depth : Nat} {j : Json} {t : Tree} :
    decodeWithin source (depth + 1) j = .ok t ↔
      (∃ value, j = .object [("var", value)] ∧ ∃ v, Variable.decode source value = .ok v ∧ .var v = t) ∨
      (∃ value, j = .object [("const", value)] ∧ ∃ c, Constant.decode source value = .ok c ∧ .const c = t) ∨
      ∃ value, j = .object [("op", value)] ∧ ∃ op trees,
        value.decodeParts source (decodeWithin source depth) = .ok (op, trees) ∧ .operation op trees = t := by
  rw [decodeWithin, Json.chooseNode_eq_ok]
  simp only [Json.map_eq_ok_iff, Prod.exists]

end Tree

namespace Expr

theorem decodeOperation_eq_ok {source : Json.Source} {operand : Json.Decoder Expr} {j : Json}
    {built : Except ExprFault Expr} :
    decodeOperation source operand j = .ok built ↔
      ∃ op operands, j.decodeParts source operand = .ok (op, operands) ∧ operation op operands = built := by
  have parts : decodeOperation source operand j =
      (j.decodeParts source operand).map fun (op, operands) => operation op operands := by
    show (j.asCarried source (Json.operationFields source operand) 2 (none, none)).bind _ =
      Except.map _ ((j.asCarried source (Json.operationFields source operand) 2 (none, none)).bind _)
    match j.asCarried source (Json.operationFields source operand) 2 (none, none) with
    | .error f => rfl
    | .ok (none, found) => rfl
    | .ok (some op, none) => rfl
    | .ok (some op, some found) => rfl
  rw [parts, Json.map_eq_ok_iff, Prod.exists]

theorem decodeWithin_succ {source : Json.Source} {depth : Nat} {j : Json} {e : Expr} :
    decodeWithin source (depth + 1) j = .ok e ↔
      (∃ value, j = .object [("var", value)] ∧ ∃ v, Variable.decode source value = .ok v ∧ .var v = e) ∨
      (∃ value, j = .object [("const", value)] ∧ ∃ c, Constant.decode source value = .ok c ∧ .const c = e) ∨
      ∃ value, j = .object [("op", value)] ∧ ∃ op operands,
        value.decodeParts source (decodeWithin source depth) = .ok (op, operands) ∧
        operation op operands = .ok e := by
  simp only [← decodeOperation_eq_ok]
  rw [decodeWithin]
  constructor
  · intro decoded
    obtain ⟨built, chosen, made⟩ := bind_eq_ok decoded
    cases built with
    | error f => cases made
    | ok d =>
      cases made
      simpa only [Json.map_eq_ok_iff, Except.ok.injEq] using Json.chooseNode_eq_ok.mp chosen
  · intro node
    rw [(Json.chooseNode_eq_ok (a := .ok e)).mpr ?_]
    · rfl
    · simpa only [Json.map_eq_ok_iff, Except.ok.injEq] using node

theorem decodesTrees_within (source : Json.Source) (depth : Nat) :
    DecodesTrees (decodeWithin source depth) (Tree.decodeWithin source depth) := by
  induction depth with
  | zero =>
    intro j e
    simp [decodeWithin, Tree.decodeWithin]
  | succ depth ih =>
    intro j e
    rw [decodeWithin_succ, Tree.decodeWithin_succ]
    refine or_congr ?_ (or_congr ?_ ?_)
    · simp only [eq_comm (b := e.tree), eq_comm (b := e), tree_eq_var]
    · simp only [eq_comm (b := e.tree), eq_comm (b := e), tree_eq_const]
    · simp only [eq_comm (b := e.tree), tree_eq_operation]
      constructor
      · rintro ⟨value, rfl, op, operands, parts, made⟩
        exact ⟨value, rfl, op, _, (ih.parts value op operands).mp parts, operands, rfl, made⟩
      · rintro ⟨value, rfl, op, _, parts, operands, rfl, made⟩
        exact ⟨value, rfl, op, operands, (ih.parts value op operands).mpr parts, made⟩

theorem decodesTrees (source : Json.Source) : DecodesTrees (decode source) (Tree.decode source) :=
  fun j => decodesTrees_within source (j.depth + 1) j

theorem parse_eq_ok {text : String} {e : Expr} :
    parse text = .ok e ↔ Json.decodeText (Tree.decode .text) text = .ok e.tree := by
  rw [parse, Json.decodeText_eq_ok, Json.decodeText_eq_ok, decodesTrees]

end Expr

theorem Core.decode_eq_ok {source : Json.Source} {j : Json} {c : Core} :
    decode source j = .ok c ↔
      ∃ clauses : List Expr, j.asList (Tree.decode source) = .ok (clauses.map Expr.tree) ∧
        .ofFirsts clauses = c := by
  rw [decode, Json.map_eq_ok_iff]
  simp only [(Expr.decodesTrees source).list]

end Reprise
