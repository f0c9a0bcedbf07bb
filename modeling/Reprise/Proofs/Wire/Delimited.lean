import Reprise.Proofs.Wire.Entry

/-!
Entries end where their bytes say. What a reader takes off the front does not depend on what follows,
so bytes that were written are read back before anything else, and none of their beginnings is read
at all.
-/
set_option autoImplicit false

namespace Reprise

namespace Wire

variable {α β : Type}

/-- More bytes at the end are left over. -/
structure Local (get : Reader α) : Prop where
  append : ∀ {bytes : Bytes} {a : α} {rest : Bytes}, get bytes = some (a, rest) →
    ∀ more, get (bytes ++ more) = some (a, rest ++ more)

theorem Local.map {get : Reader α} (h : Local get) (f : α → β) :
    Local fun bytes => (get bytes).map fun (a, rest) => (f a, rest) := by
  constructor
  intro bytes b rest read more
  obtain ⟨⟨a, left⟩, taken, same⟩ := Option.map_eq_some_iff.mp read
  cases same
  simp only [h.append taken more, Option.map_some]

theorem Local.eq_none_of_part {get : Reader α} (h : Local get) {bytes short : Bytes} {a : α}
    (whole : get bytes = some (a, [])) (start : short <+: bytes) (part : short ≠ bytes) :
    get short = none := by
  cases read : get short with
  | none => rfl
  | some found =>
    obtain ⟨b, rest⟩ := found
    obtain ⟨more, rfl⟩ := start
    have again := h.append read more
    rw [whole] at again
    have left : [] = rest ++ more := congrArg Prod.snd (Option.some.inj again)
    have none_left := (List.append_eq_nil_iff.mp left.symm).2
    rw [none_left, List.append_nil] at part
    exact absurd rfl part

theorem local_getNat (count : Nat) : Local (getNat count) := by
  induction count with
  | zero =>
    constructor
    intro bytes n rest read more
    rw [getNat] at read
    cases read
    rw [getNat]
  | succ count ih =>
    constructor
    intro bytes n rest read more
    cases bytes with
    | nil => cases read
    | cons b bytes =>
      rw [getNat] at read
      split at read
      · cases read
      · rename_i high left taken
        cases read
        rw [List.cons_append, getNat, ih.append taken more]

theorem local_getTag : Local getTag := local_getNat 4

theorem local_getLength : Local getLength := local_getNat 8

theorem local_getWord : Local getWord := (local_getNat 4).map _

theorem local_getLong : Local getLong := (local_getNat 8).map _

theorem local_getInt : Local getInt := local_getLong.map _

theorem local_getBytes (n : Nat) : Local (getBytes n) := by
  induction n with
  | zero =>
    constructor
    intro bytes taken rest read more
    rw [getBytes] at read
    cases read
    rw [getBytes]
  | succ n ih =>
    constructor
    intro bytes taken rest read more
    cases bytes with
    | nil => cases read
    | cons b bytes =>
      rw [getBytes] at read
      split at read
      · cases read
      · rename_i others left found
        cases read
        rw [List.cons_append, getBytes, ih.append found more]

theorem local_getText : Local getText := by
  constructor
  intro bytes s rest read more
  rw [getText] at read
  split at read
  · cases read
  · rename_i n after length
    split at read
    · cases read
    · rename_i taken left found
      obtain ⟨text, valid, same⟩ := Option.map_eq_some_iff.mp read
      cases same
      rw [getText, local_getLength.append length more]
      simp only [(local_getBytes n).append found more, valid, Option.map_some]

theorem local_getItems {get : Reader α} (h : Local get) (n : Nat) : Local (getItems get n) := by
  constructor
  intro bytes items rest read more
  induction items generalizing n bytes with
  | nil =>
    obtain ⟨rfl, rfl⟩ := getItems_eq_nil.mp read
    exact getItems_eq_nil.mpr ⟨rfl, rfl⟩
  | cons item others ih =>
    obtain ⟨m, after, rfl, first, later⟩ := getItems_eq_cons.mp read
    exact getItems_eq_cons.mpr ⟨m, after ++ more, rfl, h.append first more, ih m later⟩

theorem local_getList {get : Reader α} (h : Local get) : Local (getList get) := by
  constructor
  intro bytes items rest read more
  obtain ⟨n, after, length, found⟩ := getList_eq_some.mp read
  exact getList_eq_some.mpr
    ⟨n, after ++ more, local_getLength.append length more, (local_getItems h n).append found more⟩

theorem local_getSort : Local getSort := by
  constructor
  intro bytes sort rest read more
  rw [getSort] at read
  split at read
  · rename_i left tag
    cases read
    rw [getSort, local_getTag.append tag more]
    rfl
  · rename_i left tag
    cases read
    rw [getSort, local_getTag.append tag more]
    rfl
  · rename_i left tag
    rw [getSort, local_getTag.append tag more]
    exact (local_getWord.map VarSort.bitVec).append read more
  · cases read

theorem local_getVariable : Local getVariable := by
  constructor
  intro bytes v rest read more
  simp only [getVariable, Option.bind_eq_bind, Option.bind_eq_some_iff, Prod.exists] at read
  obtain ⟨name, after_name, got_name, sort, after_sort, got_sort, lower, after_lower, got_lower, upper,
    left, got_upper, same⟩ := read
  cases same
  simp only [getVariable, Option.bind_eq_bind, Option.bind_some, local_getText.append got_name more,
    local_getSort.append got_sort more, local_getInt.append got_lower more,
    local_getInt.append got_upper more]

theorem local_getConstant : Local getConstant := by
  constructor
  intro bytes c rest read more
  rw [getConstant] at read
  split at read
  · rename_i left tag
    rw [getConstant, local_getTag.append tag more]
    exact (local_getInt.map Constant.int).append read more
  · rename_i left tag
    rw [getConstant, local_getTag.append tag more]
    exact (local_getLong.map fun bits => Constant.real ⟨bits⟩).append read more
  · rename_i left tag
    simp only [Option.bind_eq_bind, Option.bind_eq_some_iff, Prod.exists] at read
    obtain ⟨value, after_value, got_value, width, left', got_width, same⟩ := read
    cases same
    rw [getConstant, local_getTag.append tag more]
    simp only [Option.bind_eq_bind, Option.bind_some, local_getInt.append got_value more,
      local_getWord.append got_width more]
  · cases read

/-- One more level of reading: the kind, then the parts. -/
inductive ReadsExpr (get : Reader Expr) (bytes : Bytes) : Expr → Bytes → Prop
  | var {v : Variable} {after rest : Bytes} : getTag bytes = some (0, after) →
    getVariable after = some (v, rest) → ReadsExpr get bytes (.var v) rest
  | const {c : Constant} {after rest : Bytes} : getTag bytes = some (1, after) →
    getConstant after = some (c, rest) → ReadsExpr get bytes (.const c) rest
  | unary {op : UnaryOp} {e : Expr} {tag : Nat} {after after_tag after_count rest : Bytes} :
    getTag bytes = some (2, after) → getTag after = some (tag, after_tag) →
    Operator.ofIndex? tag = some (.unary op) → getLength after_tag = some (1, after_count) →
    get after_count = some (e, rest) → ReadsExpr get bytes (.unary op e) rest
  | binary {op : BinaryOp} {l r : Expr} {tag : Nat}
      {after after_tag after_count after_left rest : Bytes} :
    getTag bytes = some (2, after) → getTag after = some (tag, after_tag) →
    Operator.ofIndex? tag = some (.binary op) → getLength after_tag = some (2, after_count) →
    get after_count = some (l, after_left) → get after_left = some (r, rest) →
    ReadsExpr get bytes (.binary op l r) rest

theorem getExprWithin_succ {depth : Nat} {bytes rest : Bytes} {e : Expr} :
    getExprWithin (depth + 1) bytes = some (e, rest) ↔ ReadsExpr (getExprWithin depth) bytes e rest := by
  constructor
  · intro read
    rw [getExprWithin] at read
    split at read
    · rename_i after tag
      obtain ⟨⟨v, left⟩, got, same⟩ := Option.map_eq_some_iff.mp read
      cases same
      exact .var tag got
    · rename_i after tag
      obtain ⟨⟨c, left⟩, got, same⟩ := Option.map_eq_some_iff.mp read
      cases same
      exact .const tag got
    · rename_i after tag
      simp only [Option.bind_eq_bind, Option.bind_eq_some_iff, Prod.exists] at read
      obtain ⟨number, after_tag, got_number, op, known, count, after_count, got_count, read⟩ := read
      split at read
      · simp only [Option.bind_eq_some_iff, Prod.exists] at read
        obtain ⟨operand, left, got, same⟩ := read
        cases same
        exact .unary tag got_number known got_count got
      · simp only [Option.bind_eq_some_iff, Prod.exists] at read
        obtain ⟨l, after_left, got_l, r, left, got_r, same⟩ := read
        cases same
        exact .binary tag got_number known got_count got_l got_r
      · cases read
    · cases read
  · intro reads
    cases reads with
    | var tag got =>
      rw [getExprWithin, tag]
      simp only [got, Option.map_some]
    | const tag got =>
      rw [getExprWithin, tag]
      simp only [got, Option.map_some]
    | unary tag number known count got =>
      rw [getExprWithin, tag]
      simp only [Option.bind_eq_bind, Option.bind_some, number, known, count, got]
    | binary tag number known count got_l got_r =>
      rw [getExprWithin, tag]
      simp only [Option.bind_eq_bind, Option.bind_some, number, known, count, got_l, got_r]

theorem getExprWithin_append {depth depth' : Nat} (deep : depth ≤ depth') {bytes rest : Bytes}
    {e : Expr} (read : getExprWithin depth bytes = some (e, rest)) (more : Bytes) :
    getExprWithin depth' (bytes ++ more) = some (e, rest ++ more) := by
  induction depth generalizing depth' bytes rest e with
  | zero => cases read
  | succ depth ih =>
    obtain ⟨depth', rfl⟩ := Nat.exists_eq_add_of_lt deep
    have deep' : depth ≤ depth + depth' := Nat.le_add_right _ _
    rw [getExprWithin_succ] at read ⊢
    cases read with
    | var tag got => exact .var (local_getTag.append tag more) (local_getVariable.append got more)
    | const tag got => exact .const (local_getTag.append tag more) (local_getConstant.append got more)
    | unary tag number known count got =>
      exact .unary (local_getTag.append tag more) (local_getTag.append number more) known
        (local_getLength.append count more) (ih deep' got)
    | binary tag number known count got_l got_r =>
      exact .binary (local_getTag.append tag more) (local_getTag.append number more) known
        (local_getLength.append count more) (ih deep' got_l) (ih deep' got_r)

theorem local_getExpr : Local getExpr := by
  constructor
  intro bytes e rest read more
  have room : bytes.length ≤ (bytes ++ more).length := by
    rw [List.length_append]
    exact Nat.le_add_right _ _
  exact getExprWithin_append room read more

theorem local_getPair : Local getPair := by
  constructor
  intro bytes p rest read more
  simp only [getPair, Option.bind_eq_bind, Option.bind_eq_some_iff, Prod.exists] at read
  obtain ⟨v, after, got_v, c, left, got_c, same⟩ := read
  cases same
  simp only [getPair, Option.bind_eq_bind, Option.bind_some, local_getVariable.append got_v more,
    local_getConstant.append got_c more]

end Wire

namespace Entry

variable {α : Type} [Payload α]

theorem local_get (payload : Wire.Local (Payload.get (α := α))) :
    Wire.Local (Entry.get (α := α)) := by
  constructor
  intro bytes e rest read more
  simp only [get, Option.bind_eq_bind, Option.bind_eq_some_iff, Prod.exists] at read
  obtain ⟨key, after_key, got_key, size, after_size, got_size, answer, left, got, same⟩ := read
  cases same
  simp only [get, Option.bind_eq_bind, Option.bind_some, Wire.local_getLong.append got_key more,
    Wire.local_getLength.append got_size more, payload.append got more]

def Delimited (e : Entry α) : Prop :=
  ∃ bytes, e.encode? = some bytes ∧ (∀ more, decode? (bytes ++ more) = some e) ∧
    ∀ short, short <+: bytes → short ≠ bytes → decode? (α := α) short = none

theorem delimited_of_fits [LawfulPayload α] (payload : Wire.Local (Payload.get (α := α)))
    {e : Entry α} (fits : e.fits = true) : e.Delimited := by
  have whole : get (e.put []) = some (e, []) := get_put fits []
  refine ⟨e.put [], if_pos fits, fun more => ?_, fun short start part => ?_⟩
  · rw [decode?, (local_get payload).append whole more]
    rfl
  · rw [decode?, (local_get payload).eq_none_of_part whole start part]
    rfl

/-- Entries with models and with cores are delimited by their bytes; the lengths in them are those of
texts and lists that lie in memory. -/
theorem entries_delimited :
    (∀ e : Entry Model, e.fits = true → e.Delimited) ∧
    ∀ e : Entry Core, e.fits = true → e.Delimited := by
  have models : Wire.Local (Payload.get (α := Model)) :=
    (Wire.local_getList Wire.local_getPair).map Model.ofList
  have cores : Wire.Local (Payload.get (α := Core)) :=
    (Wire.local_getList Wire.local_getExpr).map Core.ofFirsts
  exact ⟨fun _ => delimited_of_fits models, fun _ => delimited_of_fits cores⟩

/-- An infinite key, a real that is no number and a clause under a name beyond ASCII. -/
theorem delimited_of_two_entries :
    let model : Entry Model :=
      ⟨⟨0x7FF0000000000000⟩, 1, .ofList [(⟨"ξ", .real, 1, -1⟩, .real ⟨0x7FF8000000000001⟩)]⟩
    let core : Entry Core := ⟨⟨0x8000000000000000⟩, 2, .ofList
      [.unary .not (.binary .shr (.var ⟨"ξ", .bitVec 8, 0, 9⟩) (.unary .neg (.const (.bitVec 5 70))))]⟩
    model.fits = true ∧ core.fits = true ∧ model.Delimited ∧ core.Delimited := by
  intro model core
  have fits : model.fits = true := by decide +kernel
  have fits' : core.fits = true := by decide +kernel
  exact ⟨fits, fits', entries_delimited.1 model fits, entries_delimited.2 core fits'⟩

end Entry

end Reprise
