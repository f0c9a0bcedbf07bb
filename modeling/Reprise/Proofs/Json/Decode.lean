import Reprise.Json.Answer
import Reprise.Proofs.Answer.Core
import Reprise.Proofs.Distance.Probe
import Reprise.Proofs.Json.Document

/-!
Variables, constants, expressions, models and cores are decoded from the documents that they are
encoded as, and parsed from the texts of these documents.
-/
set_option autoImplicit false

namespace Reprise

namespace Json

variable {α σ : Type}

theorem asText_text (s : String) : (Json.text s).asText = .ok s := rfl

theorem asInt64_int64 (n : Int64) : (int64 n).asInt64 = .ok n := by
  have low := n.minValue_le_toInt
  have high := n.toInt_le
  rw [int64, asInt64, if_pos ⟨low, high⟩, Int64.ofInt_toInt]

theorem asWord_nat (w : UInt32) : (nat w.toNat).asWord = .ok w := by
  have small : w.toNat < 1 <<< 32 := w.toNat_lt
  have bound : (0 : Int) ≤ w.toNat ∧ (w.toNat : Int) < (1 <<< 32 : Nat) := by omega
  rw [asWord, nat, asNatBelow, if_pos bound]
  simp [Except.map]

theorem exact_int64 (n : Int64) : (int64 n).Exact := by
  have low : -9223372036854775808 ≤ n.toInt := n.minValue_le_toInt
  have high : n.toInt ≤ 9223372036854775807 := n.toInt_le
  have word : IsWord64 n.toInt := by
    constructor <;> omega
  exact word

theorem exact_nat (w : UInt32) : (nat w.toNat).Exact := by
  have small : w.toNat < 4294967296 := w.toNat_lt
  have word : IsWord64 w.toNat := by
    constructor <;> omega
  exact word

theorem asChoice_single {source : Source} {bare : String → Option α}
    {carrying : String → Option (Decoder α)} {name : String} {value : Json} {decode : Decoder α} {a : α}
    (named : carrying name = some decode) (decoded : decode value = .ok a) :
    asChoice source bare carrying (.object [(name, value)]) = .ok a := by
  simp [asChoice, named, decoded]

theorem fresh_of_nodup {done todo : List (Field σ)} {field : Field σ}
    (distinct : ((done ++ field :: todo).map Field.name).Nodup) :
    field.name ∉ done.map Field.name := by
  intro before
  rw [List.map_append, List.map_cons] at distinct
  exact (List.nodup_append.mp distinct).2.2 _ before _ List.mem_cons_self rfl

theorem find?_of_nodup {done todo : List (Field σ)} {field : Field σ}
    (distinct : ((done ++ field :: todo).map Field.name).Nodup) :
    (done ++ field :: todo).find? (fun other => other.name == field.name) = some field := by
  have none_done : done.find? (fun other => other.name == field.name) = none := by
    rw [List.find?_eq_none]
    intro other mem same
    have name : other.name = field.name := by simpa using same
    exact fresh_of_nodup distinct (name ▸ List.mem_map_of_mem mem)
  rw [List.find?_append, none_done, List.find?_cons_of_pos (by simp)]
  rfl

theorem enterFields_known {fields : List (Field σ)} {seen : List String} {field : Field σ}
    {value : Json} {rest : List (String × Json)} {s : σ} (solid : value ≠ .nameless)
    (known : fields.find? (fun other => other.name == field.name) = some field)
    (fresh : field.name ∉ seen) :
    enterFields fields seen ((field.name, value) :: rest) s =
      (field.enter value s).bind (enterFields fields (field.name :: seen) rest) := by
  have unseen : seen.contains field.name = false := by simpa using fresh
  rw [enterFields.eq_def]
  simp only [known, unseen, Bool.false_eq_true, if_false]
  cases field.enter value s <;> rfl

theorem enterFields_zip (done todo : List (Field σ)) {seen : List String} {items : List Json} {s : σ}
    (distinct : ((done ++ todo).map Field.name).Nodup)
    (past : ∀ name ∈ seen, name ∈ done.map Field.name) (few : items.length ≤ todo.length)
    (solid : ∀ item ∈ items, item ≠ .nameless) :
    enterFields (done ++ todo) seen ((todo.map Field.name).zip items) s = enterItems todo items s := by
  induction todo generalizing done seen items s with
  | nil =>
    rw [List.length_eq_zero_iff.mp (Nat.le_zero.mp few)]
    rfl
  | cons field todo ih =>
    cases items with
    | nil => rfl
    | cons item items =>
      have fresh : field.name ∉ seen := fun before => fresh_of_nodup distinct (past _ before)
      rw [List.map_cons, List.zip_cons_cons,
        enterFields_known (solid item List.mem_cons_self) (find?_of_nodup distinct) fresh, enterItems]
      cases field.enter item s with
      | error f => rfl
      | ok s =>
        have split_later : done ++ field :: todo = (done ++ [field]) ++ todo := by simp
        rw [split_later] at distinct ⊢
        refine ih (done ++ [field]) distinct (fun name mem => ?_) (Nat.le_of_succ_le_succ few)
          fun item mem => solid item (List.mem_cons_of_mem _ mem)
        rw [List.map_append, List.mem_append]
        cases List.mem_cons.mp mem with
        | inl now => exact Or.inr (by simp [now])
        | inr before => exact Or.inl (past name before)

theorem Exact.ne_nameless {j : Json} (h : j.Exact) : j ≠ .nameless := by
  rintro rfl
  exact h

theorem ExactItems.ne_nameless {items : List Json} (h : ExactItems items) :
    ∀ item ∈ items, item ≠ .nameless := by
  induction items with
  | nil => exact nofun
  | cons item items ih =>
    intro other mem
    cases mem with
    | head => exact h.1.ne_nameless
    | tail _ later => exact ih h.2 other later

theorem asRecord_object {fields : List (Field σ)} {items : List Json} (solid : ExactItems items)
    (distinct : (fields.map Field.name).Nodup) (few : items.length ≤ fields.length) (required : Nat)
    (start : σ) :
    asRecord fields required start (.object ((fields.map Field.name).zip items)) =
      enterItems fields items start :=
  enterFields_zip [] fields distinct nofun few solid.ne_nameless

theorem asCarried_object (source : Source) (fields : List (Field σ)) (required : Nat) (start : σ)
    (entries : List (String × Json)) :
    asCarried source fields required start (.object entries) =
      asRecord fields required start (.object entries) := by
  cases source <;> rfl

theorem enterItems_cons {field : Field σ} {fields : List (Field σ)} {item : Json} {items : List Json}
    {s s' : σ} (entered : field.enter item s = .ok s') :
    enterItems (field :: fields) (item :: items) s = enterItems fields items s' := by
  rw [enterItems, entered]

theorem enter_of {name : String} {decode : Decoder α} {keep : σ → α → σ} {j : Json} {a : α}
    (decoded : decode j = .ok a) (s : σ) : (Field.of name decode keep).enter j s = .ok (keep s a) := by
  have mapped : (decode j).map (keep s) = .ok (keep s a) := by rw [decoded, Except.map]
  exact mapped

theorem asPair_array {β : Type} {first : Decoder α} {second : Decoder β} {j j' : Json} {a : α} {b : β}
    (decoded : first j = .ok a) (decoded' : second j' = .ok b) :
    asPair first second (.array [j, j']) = .ok (a, b) := by
  simp [asPair, decoded, decoded']

theorem exactItems_map {encode : α → Json} {items : List α} (h : ∀ a ∈ items, (encode a).Exact) :
    ExactItems (items.map encode) := by
  induction items with
  | nil => trivial
  | cons a items ih =>
    exact ⟨h a List.mem_cons_self, ih fun b mem => h b (List.mem_cons_of_mem _ mem)⟩

theorem depthOfItems_map_le {encode : α → Json} {items : List α} {bound : Nat}
    (h : ∀ a ∈ items, (encode a).depth ≤ bound) : depthOfItems (items.map encode) ≤ bound := by
  induction items with
  | nil => exact Nat.zero_le _
  | cons a items ih =>
    have others := ih fun b mem => h b (List.mem_cons_of_mem _ mem)
    exact Nat.max_le.mpr ⟨h a List.mem_cons_self, others⟩

theorem decodeItems_map {decode : Decoder α} {encode : α → Json} {items : List α}
    (decodes : ∀ a ∈ items, decode (encode a) = .ok a) :
    decodeItems decode (items.map encode) = .ok items := by
  induction items with
  | nil => rfl
  | cons a items ih =>
    have others := ih fun b mem => decodes b (List.mem_cons_of_mem _ mem)
    rw [List.map_cons, decodeItems, decodes a List.mem_cons_self, others]
    rfl

end Json

namespace VarSort

theorem exact_toJson (sort : VarSort) : sort.toJson.Exact := by
  cases sort with
  | int => trivial
  | real => trivial
  | bitVec width => exact ⟨⟨Json.exact_nat width, trivial⟩, trivial⟩

theorem depth_toJson_le (sort : VarSort) : sort.toJson.depth ≤ 2 := by
  cases sort <;> simp [toJson, Json.nat, Json.depth, Json.depthOfFields]

theorem decodeWidth_object (source : Json.Source) (width : UInt32) :
    decodeWidth source (.object [("width", .nat width.toNat)]) = .ok (.bitVec width) := by
  let fields : List (Json.Field (Option UInt32)) := [.of "width" Json.asWord fun _ w => some w]
  have solid : Json.ExactItems [.nat width.toNat] := ⟨Json.exact_nat width, trivial⟩
  have distinct : (fields.map Json.Field.name).Nodup := (by decide : ["width"].Nodup)
  have entered := Json.asRecord_object solid distinct (Nat.le_refl 1) 1 none
  rw [Json.enterItems_cons (Json.enter_of (Json.asWord_nat width) none)] at entered
  rw [decodeWidth, Json.asCarried_object]
  exact congrArg (Except.bind · _) entered

theorem decode_toJson (source : Json.Source) (sort : VarSort) :
    decode source sort.toJson = .ok sort := by
  cases sort with
  | int => rfl
  | real => rfl
  | bitVec width =>
    exact Json.asChoice_single rfl (decodeWidth_object source width)

end VarSort

namespace Variable

theorem exact_toJson (v : Variable) : v.toJson.Exact :=
  ⟨trivial, v.sort.exact_toJson, Json.exact_int64 v.lower, Json.exact_int64 v.upper, trivial⟩

theorem depth_toJson_le (v : Variable) : v.toJson.depth ≤ 3 := by
  have sort := v.sort.depth_toJson_le
  simp only [toJson, Json.depth, Json.depthOfFields, Json.int64]
  omega

theorem asRecord_toJson (source : Json.Source) (v : Variable) :
    v.toJson.asRecord (fields source) 4 ⟨none, none, none, none⟩ =
      .ok ⟨some v.name, some v.sort, some v.lower, some v.upper⟩ := by
  have solid : Json.ExactItems [.text v.name, v.sort.toJson, .int64 v.lower, .int64 v.upper] :=
    ⟨trivial, v.sort.exact_toJson, Json.exact_int64 v.lower, Json.exact_int64 v.upper, trivial⟩
  have distinct : ((fields source).map Json.Field.name).Nodup :=
    (by decide : ["name", "sort", "lower", "upper"].Nodup)
  refine (Json.asRecord_object solid distinct (Nat.le_refl 4) 4 _).trans ?_
  rw [fields, Json.enterItems_cons (Json.enter_of (Json.asText_text v.name) _),
    Json.enterItems_cons (Json.enter_of (VarSort.decode_toJson source v.sort) _),
    Json.enterItems_cons (Json.enter_of (Json.asInt64_int64 v.lower) _),
    Json.enterItems_cons (Json.enter_of (Json.asInt64_int64 v.upper) _)]
  rfl

theorem decode_toJson (source : Json.Source) (v : Variable) : decode source v.toJson = .ok v := by
  rw [decode, asRecord_toJson]
  rfl

end Variable

namespace Constant

theorem exact_toJson {c : Constant} (whole : c.asInt.isSome = true) : c.toJson.Exact := by
  cases c with
  | int value => exact ⟨Json.exact_int64 value, trivial⟩
  | bitVec value width =>
    exact ⟨⟨Json.exact_int64 value, Json.exact_nat width, trivial⟩, trivial⟩
  | real r => cases whole

theorem depth_toJson_le (c : Constant) : c.toJson.depth ≤ 2 := by
  cases c with
  | int value => simp [toJson, Json.int64, Json.depth, Json.depthOfFields]
  | bitVec value width => simp [toJson, Json.int64, Json.nat, Json.depth, Json.depthOfFields]
  | real r =>
    rw [toJson, Json.real]
    split <;> simp [Json.depth, Json.depthOfFields]

theorem decodeWord_object (source : Json.Source) (value : Int64) (width : UInt32) :
    decodeWord source (.object [("value", .int64 value), ("width", .nat width.toNat)]) =
      .ok (.bitVec value width) := by
  have solid : Json.ExactItems [.int64 value, .nat width.toNat] :=
    ⟨Json.exact_int64 value, Json.exact_nat width, trivial⟩
  have distinct : (wordFields.map Json.Field.name).Nodup := (by decide : ["value", "width"].Nodup)
  have entered := Json.asRecord_object solid distinct (Nat.le_refl 2) 2 (none, none)
  rw [wordFields, Json.enterItems_cons (Json.enter_of (Json.asInt64_int64 value) _),
    Json.enterItems_cons (Json.enter_of (Json.asWord_nat width) _)] at entered
  rw [decodeWord, Json.asCarried_object]
  exact congrArg (Except.bind · _) entered

theorem decode_toJson (source : Json.Source) {c : Constant} (whole : c.asInt.isSome = true) :
    decode source c.toJson = .ok c := by
  cases c with
  | int value =>
    have value_read : (Json.int64 value).asInt64.map Constant.int = .ok (.int value) := by
      rw [Json.asInt64_int64, Except.map]
    exact Json.asChoice_single rfl value_read
  | bitVec value width =>
    exact Json.asChoice_single rfl (decodeWord_object source value width)
  | real r => cases whole

end Constant

namespace Operator

theorem decode_toJson (source : Json.Source) (op : Operator) : decode source op.toJson = .ok op := by
  have named := ofName?_name op
  rw [toJson, decode, Json.asChoice, named]
  rfl

end Operator

namespace Expr

theorem exact_toJson {e : Expr} (whole : e.isWhole = true) : e.toJson.Exact := by
  induction e with
  | var v => exact ⟨v.exact_toJson, trivial⟩
  | const c => exact ⟨Constant.exact_toJson whole, trivial⟩
  | unary op e ih => exact ⟨⟨trivial, ⟨ih whole, trivial⟩, trivial⟩, trivial⟩
  | binary op l r ihl ihr =>
    obtain ⟨whole_l, whole_r⟩ := Bool.and_eq_true_iff.mp whole
    exact ⟨⟨trivial, ⟨ihl whole_l, ihr whole_r, trivial⟩, trivial⟩, trivial⟩

theorem decodeOperation_object (source : Json.Source) {operand : Json.Decoder Expr} (op : Operator)
    {operands : List Expr} (decodes : ∀ e ∈ operands, operand e.toJson = .ok e)
    (solid : Json.ExactItems (operands.map toJson)) :
    decodeOperation source operand
        (.object [("operator", op.toJson), ("operands", .array (operands.map toJson))]) =
      .ok (operation op operands) := by
  have both : Json.ExactItems [op.toJson, .array (operands.map toJson)] := ⟨trivial, solid, trivial⟩
  have distinct : ((operationFields source operand).map Json.Field.name).Nodup :=
    (by decide : ["operator", "operands"].Nodup)
  have entered := Json.asRecord_object both distinct (Nat.le_refl 2) 2 (none, none)
  have items : Json.asList operand (.array (operands.map toJson)) = .ok operands :=
    Json.decodeItems_map decodes
  rw [operationFields, Json.enterItems_cons (Json.enter_of (Operator.decode_toJson source op) _),
    Json.enterItems_cons (Json.enter_of items _)] at entered
  rw [decodeOperation, Json.asCarried_object]
  exact congrArg (Except.bind · _) entered

theorem decodeWithin_operation (source : Json.Source) {depth : Nat} (op : Operator)
    (operands : List Expr) {e : Expr} (built : operation op operands = .ok e)
    (decodes : ∀ e ∈ operands, decodeWithin source depth e.toJson = .ok e)
    (solid : Json.ExactItems (operands.map toJson)) :
    decodeWithin source (depth + 1) (.object [("op",
      .object [("operator", op.toJson), ("operands", .array (operands.map toJson))])]) = .ok e := by
  have decoded := decodeOperation_object source op decodes solid
  rw [built] at decoded
  rw [decodeWithin, Json.asChoice_single rfl decoded]
  rfl

/-- Each level of an expression takes several of its document, so that the document's depth is enough. -/
theorem decodeWithin_toJson (source : Json.Source) {e : Expr} (whole : e.isWhole = true) {depth : Nat}
    (deep : e.toJson.depth < depth) : decodeWithin source depth e.toJson = .ok e := by
  induction e generalizing depth with
  | var v =>
    obtain ⟨depth, rfl⟩ := Nat.exists_eq_add_one_of_ne_zero (Nat.ne_zero_of_lt deep)
    have decoded : (Variable.decode source v.toJson).map
        (fun v => (.ok (.var v) : Except ExprFault Expr)) = .ok (.ok (.var v)) := by
      rw [Variable.decode_toJson, Except.map]
    rw [toJson, decodeWithin, Json.asChoice_single rfl decoded]
    rfl
  | const c =>
    obtain ⟨depth, rfl⟩ := Nat.exists_eq_add_one_of_ne_zero (Nat.ne_zero_of_lt deep)
    have decoded : (Constant.decode source c.toJson).map
        (fun c => (.ok (.const c) : Except ExprFault Expr)) = .ok (.ok (.const c)) := by
      rw [Constant.decode_toJson source whole, Except.map]
    rw [toJson, decodeWithin, Json.asChoice_single rfl decoded]
    rfl
  | unary op e ih =>
    obtain ⟨depth, rfl⟩ := Nat.exists_eq_add_one_of_ne_zero (Nat.ne_zero_of_lt deep)
    simp only [toJson, Operator.toJson, Json.depth, Json.depthOfFields, Json.depthOfItems] at deep
    refine decodeWithin_operation source (.unary op) [e] rfl ?_ ⟨exact_toJson whole, trivial⟩
    simpa using ih whole (by omega)
  | binary op l r ihl ihr =>
    obtain ⟨depth, rfl⟩ := Nat.exists_eq_add_one_of_ne_zero (Nat.ne_zero_of_lt deep)
    obtain ⟨whole_l, whole_r⟩ := Bool.and_eq_true_iff.mp whole
    simp only [toJson, Operator.toJson, Json.depth, Json.depthOfFields, Json.depthOfItems] at deep
    refine decodeWithin_operation source (.binary op) [l, r] rfl ?_
      ⟨exact_toJson whole_l, exact_toJson whole_r, trivial⟩
    simpa using ⟨ihl whole_l (by omega), ihr whole_r (by omega)⟩

theorem decode_toJson (source : Json.Source) {e : Expr} (whole : e.isWhole = true) :
    decode source e.toJson = .ok e :=
  decodeWithin_toJson source whole (Nat.lt_succ_self _)

end Expr

namespace Model

def isWhole (m : Model) : Bool := m.pairs.all fun p => p.2.asInt.isSome

theorem exact_toJson {m : Model} (whole : m.isWhole = true) : m.toJson.Exact := by
  refine Json.exactItems_map fun p mem => ?_
  exact ⟨p.1.exact_toJson, Constant.exact_toJson (List.all_eq_true.mp whole p mem), trivial⟩

theorem depth_toJson_le (m : Model) : m.toJson.depth ≤ 5 := by
  refine Nat.succ_le_succ (Json.depthOfItems_map_le fun p _ => ?_)
  have key := p.1.depth_toJson_le
  have value := p.2.depth_toJson_le
  simp only [Json.depth, Json.depthOfItems]
  omega

theorem decode_toJson (source : Json.Source) {m : Model} (whole : m.isWhole = true) :
    decode source m.toJson = .ok m := by
  have pairs : m.toJson.asList (Json.asPair (Variable.decode source) (Constant.decode source)) =
      .ok m.pairs := by
    refine Json.decodeItems_map fun p mem => ?_
    have value := Constant.decode_toJson source (List.all_eq_true.mp whole p mem)
    exact Json.asPair_array (Variable.decode_toJson source p.1) value
  have same : ofList m.pairs = m := congrArg mk (OrderedMap.ofList_entries m.assignments)
  rw [decode, pairs, Except.map, same]

end Model

namespace Core

def isWhole (c : Core) : Bool := c.clauses.all Expr.isWhole

theorem exact_toJson {c : Core} (whole : c.isWhole = true) : c.toJson.Exact :=
  Json.exactItems_map fun e mem => Expr.exact_toJson (List.all_eq_true.mp whole e mem)

theorem decode_toJson (source : Json.Source) {c : Core} (whole : c.isWhole = true) :
    decode source c.toJson = .ok c := by
  have clauses : c.toJson.asList (Expr.decode source) = .ok c.clauses :=
    Json.decodeItems_map fun e mem => Expr.decode_toJson source (List.all_eq_true.mp whole e mem)
  rw [decode, clauses, Except.map, ofFirsts_clauses]

end Core

section Texts

theorem Json.decodeText_render {α : Type} {decode : Json.Decoder α} {j : Json} {a : α}
    (exact_j : j.Exact) (deep : j.depth < 128) (decoded : decode j = .ok a) :
    Json.decodeText decode j.render = .ok a := by
  rw [Json.decodeText, Json.read_render exact_j (Nat.le_of_lt_succ deep)]
  simp [decoded]

/-- What is written as a text is read back as it was: operators, operands in their order, kinds and
widths of constants, names of any characters, sorts and bounds. A model never nests too deep. -/
theorem parse_render :
    (∀ e : Expr, e.isWhole = true → e.toJson.depth < 128 → Expr.parse e.toJson.render = .ok e) ∧
    (∀ m : Model, m.isWhole = true → Model.parse m.toJson.render = .ok m) ∧
    ∀ c : Core, c.isWhole = true → c.toJson.depth < 128 → Core.parse c.toJson.render = .ok c := by
  refine ⟨fun e whole deep => ?_, fun m whole => ?_, fun c whole deep => ?_⟩
  · exact Json.decodeText_render (Expr.exact_toJson whole) deep (Expr.decode_toJson .text whole)
  · have shallow : m.toJson.depth < 128 := Nat.lt_of_le_of_lt m.depth_toJson_le (by decide)
    exact Json.decodeText_render (Model.exact_toJson whole) shallow (Model.decode_toJson .text whole)
  · exact Json.decodeText_render (Core.exact_toJson whole) deep (Core.decode_toJson .text whole)

/-- A name with quotes, a control character and a character beyond 16 bits, the widest words and the
extreme bounds. -/
theorem parse_render_of_odd_names :
    let v : Variable := ⟨"\x01\"\\ü😀", .bitVec 4294967295, Int64.minValue, Int64.maxValue⟩
    let e : Expr := .binary .sub (.unary .neg (.var v)) (.const (.bitVec Int64.minValue 7))
    let m := Model.ofList [(v, .bitVec Int64.maxValue 64), (⟨"", .real, 0, 1⟩, .int (-1))]
    let c := Core.ofFirsts [e, .unary .not e]
    (e.isWhole = true ∧ e.toJson.depth < 128 ∧ Expr.parse e.toJson.render = .ok e) ∧
    (m.isWhole = true ∧ Model.parse m.toJson.render = .ok m) ∧
    c.isWhole = true ∧ c.toJson.depth < 128 ∧ Core.parse c.toJson.render = .ok c := by
  intro v e m c
  have whole_e : e.isWhole = true := by decide
  have deep_e : e.toJson.depth < 128 := by decide
  have whole_m : m.isWhole = true := by decide +kernel
  have whole_c : c.isWhole = true := by decide +kernel
  have deep_c : c.toJson.depth < 128 := by decide +kernel
  exact ⟨⟨whole_e, deep_e, parse_render.1 e whole_e deep_e⟩, ⟨whole_m, parse_render.2.1 m whole_m⟩,
    whole_c, deep_c, parse_render.2.2 c whole_c deep_c⟩

end Texts

end Reprise
