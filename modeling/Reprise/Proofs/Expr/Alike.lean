import Reprise.Proofs.Decimal.Text
import Reprise.Proofs.Expr.Canonical
import Reprise.Proofs.Expr.Walk

/-!
When canonical texts agree. Where the names of variables are tokens, two operations of one text have
the same operators over leaves of the same texts. Only at the root a minus can be read twice: as the
sign of a number or as the operator before a leaf.
-/
set_option autoImplicit false

namespace Reprise

open Text

theorem UnaryOp.symbol_append_inj {op op' : UnaryOp} {s t : List Char}
    (h : op.symbol.toList ++ s = op'.symbol.toList ++ t) : op = op' ∧ s = t := by
  cases op <;> cases op' <;> simp_all [symbol]

theorem Text.Token.minus_of_symbol {op : UnaryOp} {text s t : List Char} (h : Token text)
    (same : text ++ s = op.symbol.toList ++ t) :
    op = .neg ∧ ∃ body, Words body ∧ body ++ s = t := by
  cases h with
  | plain words => cases op <;> exact absurd same (words.ne_mark (by decide) _ _)
  | @minus body words =>
    cases op with
    | not => exact absurd (List.cons.inj same).1 (by decide)
    | neg => exact ⟨rfl, body, words, (List.cons.inj same).2⟩

namespace BinaryOp

/-- The characters of binary operators other than the minus. -/
def signs : List Char := ['!', '=', '<', '>', '&', '|', '+', '*', '/', '%', '^']

def isSign (c : Char) : Bool := signs.contains c

theorem symbol_signs {op : BinaryOp} (h : op ≠ .sub) : ∀ c ∈ op.symbol.toList, isSign c = true := by
  rw [← List.all_eq_true]
  cases op <;> first | exact absurd rfl h | decide

theorem symbol_ne_minus {op : BinaryOp} (h : op ≠ .sub) (s t : List Char) :
    op.symbol.toList ++ s ≠ '-' :: t := by
  cases op <;> first | exact absurd rfl h | simp [symbol]

theorem exists_symbol_head (op : BinaryOp) :
    ∃ c rest, op.symbol.toList = c :: rest ∧ isWord c = false ∧ c ≠ ')' := by
  cases op <;> exact ⟨_, _, rfl, by decide, by decide⟩

theorem symbol_inj {op op' : BinaryOp} (h : op.symbol = op'.symbol) : op = op' := by
  cases op <;> cases op' <;> first | rfl | exact absurd h (by decide)

/-- An operator is read off before an operand, which does not begin with one of these signs. -/
theorem symbol_append_inj {op op' : BinaryOp} {s t : List Char} (hs : Stops isSign s)
    (ht : Stops isSign t) (h : op.symbol.toList ++ s = op'.symbol.toList ++ t) : op = op' ∧ s = t := by
  have minus : BinaryOp.sub.symbol.toList = ['-'] := rfl
  by_cases is_sub : op = .sub
  · subst is_sub
    by_cases is_sub' : op' = .sub
    · subst is_sub'
      exact ⟨rfl, List.append_cancel_left h⟩
    · rw [minus] at h
      exact absurd h.symm (symbol_ne_minus is_sub' t s)
  · by_cases is_sub' : op' = .sub
    · subst is_sub'
      rw [minus] at h
      exact absurd h (symbol_ne_minus is_sub s t)
    · obtain ⟨same, rest⟩ := run_inj (symbol_signs is_sub) (symbol_signs is_sub') hs ht h
      exact ⟨symbol_inj (String.toList_inj.mp same), rest⟩

end BinaryOp

namespace Expr

/-- All names are made of characters that stand in no operator. -/
def LegibleNames (e : Expr) : Prop := ∀ v ∈ e.vars, Words v.name.toList

instance (e : Expr) : Decidable e.LegibleNames :=
  decidable_of_iff (e.vars.all fun v => decide (Words v.name.toList)) (by simp [LegibleNames])

/-- The same operators over leaves of the same texts. -/
inductive Alike : Expr → Expr → Prop
  | leaf {a b : Expr} : a.isOperation = false → b.isOperation = false → a.spelling = b.spelling →
    Alike a b
  | unary {a b : Expr} (op : UnaryOp) : Alike a b → Alike (.unary op a) (.unary op b)
  | binary {l r l' r' : Expr} (op : BinaryOp) : Alike l l' → Alike r r' →
    Alike (.binary op l r) (.binary op l' r')

def isNegatedLeaf : Expr → Bool
  | .unary .neg e => !e.isOperation
  | _ => false

def operandText (e : Expr) : List Char := (e.enclose e.spelling).toList

theorem operandText_leaf {e : Expr} (leaf : e.isOperation = false) :
    e.operandText = e.spelling.toList := by
  simp [operandText, enclose, leaf]

theorem operandText_operation {e : Expr} (operation : e.isOperation = true) (rest : List Char) :
    e.operandText ++ rest = '(' :: (e.spelling.toList ++ ')' :: rest) := by
  simp [operandText, enclose, operation]

theorem spelling_unary (op : UnaryOp) (e : Expr) (rest : List Char) :
    (Expr.unary op e).spelling.toList ++ rest = op.symbol.toList ++ (e.operandText ++ rest) := by
  simp [spelling, operandText]

theorem spelling_binary (op : BinaryOp) (l r : Expr) (rest : List Char) :
    (Expr.binary op l r).spelling.toList ++ rest =
      l.operandText ++ (op.symbol.toList ++ (r.operandText ++ rest)) := by
  simp [spelling, operandText]

theorem token_of_leaf {e : Expr} (leaf : e.isOperation = false) (names : e.LegibleNames) :
    Token e.spelling.toList := by
  cases e with
  | var v => exact .plain (names v (by simp))
  | const c => exact c.token_text
  | unary op e => cases leaf
  | binary op l r => cases leaf

theorem exists_operandText_head {e : Expr} (names : e.LegibleNames) :
    ∃ c rest, e.operandText = c :: rest ∧ (c = '(' ∨ c = '-' ∨ isWord c = true) := by
  cases kind : e.isOperation with
  | false =>
    rw [operandText_leaf kind]
    obtain ⟨c, rest, same, head⟩ := (token_of_leaf kind names).exists_head
    exact ⟨c, rest, same, Or.inr head⟩
  | true =>
    have text := operandText_operation kind []
    rw [List.append_nil] at text
    exact ⟨'(', _, text, Or.inl rfl⟩

theorem stops_operandText {e : Expr} (names : e.LegibleNames) (rest : List Char) :
    Stops BinaryOp.isSign (e.operandText ++ rest) := by
  obtain ⟨c, tail, same, head⟩ := exists_operandText_head names
  rw [same, List.cons_append, stops_cons]
  cases head with
  | inl paren => rw [paren]; decide
  | inr token =>
    cases token with
    | inl minus => rw [minus]; decide
    | inr word =>
      have signs : BinaryOp.signs ⊆ marks := by decide
      rw [BinaryOp.isSign, Bool.eq_false_iff, Ne, List.contains_iff_mem]
      exact fun sign => isWord_iff.mp word (signs sign)

/-- What comes after an operation: nothing or the parenthesis that ends it. -/
def Closes (rest : List Char) : Prop := ∀ c ∈ rest.head?, c = ')'

theorem Closes.stops {rest : List Char} (h : Closes rest) : Stops isWord rest := by
  intro c head
  rw [h c head]
  decide

theorem closes_nil : Closes [] := by simp [Closes]

theorem closes_paren (rest : List Char) : Closes (')' :: rest) := by simp [Closes]

theorem not_closes_symbol (op : BinaryOp) (rest : List Char) : ¬ Closes (op.symbol.toList ++ rest) := by
  obtain ⟨c, tail, same, -, no_paren⟩ := op.exists_symbol_head
  rw [same]
  exact fun closes => no_paren (closes c rfl)

theorem stops_symbol (op : BinaryOp) (rest : List Char) :
    Stops isWord (op.symbol.toList ++ rest) := by
  obtain ⟨c, tail, same, no_word, -⟩ := op.exists_symbol_head
  rw [same]
  exact stops_cons.mpr no_word

theorem operandText_ne_words {op : BinaryOp} {e : Expr} {body s t : List Char}
    (names : e.LegibleNames) (closes : Closes s) (words : Words body) :
    e.operandText ++ s ≠ body ++ (op.symbol.toList ++ t) := by
  intro same
  cases kind : e.isOperation with
  | true =>
    rw [operandText_operation kind] at same
    exact words.ne_mark (by decide) _ _ same.symm
  | false =>
    have token := token_of_leaf kind names
    rw [operandText_leaf kind] at same
    have ends := (token.inj (.plain words) closes.stops (stops_symbol op t) same).2
    exact not_closes_symbol op t (ends ▸ closes)

theorem unary_ne_binary {op : UnaryOp} {op' : BinaryOp} {e l r : Expr} {s t : List Char}
    (names : e.LegibleNames) (names' : l.LegibleNames) (closes : Closes s) :
    (Expr.unary op e).spelling.toList ++ s ≠ (Expr.binary op' l r).spelling.toList ++ t := by
  rw [spelling_unary, spelling_binary]
  intro same
  cases kind : l.isOperation with
  | true =>
    rw [operandText_operation kind] at same
    cases op <;> simp [UnaryOp.symbol] at same
  | false =>
    have token := token_of_leaf kind names'
    rw [operandText_leaf kind] at same
    obtain ⟨-, body, words, rest⟩ := token.minus_of_symbol same.symm
    exact operandText_ne_words names closes words rest.symm

/-- As an operand the expression is read off before anything that is no part of a word. -/
def ReadsOff (a : Expr) : Prop :=
  ∀ b s t, b.LegibleNames → Stops isWord s → Stops isWord t →
    a.operandText ++ s = b.operandText ++ t → Alike a b ∧ s = t

/-- As an operation the expression is read off before its end. -/
def ReadsWhole (a : Expr) : Prop :=
  ∀ b s t, b.LegibleNames → b.isOperation = true → Closes s → Closes t →
    a.spelling.toList ++ s = b.spelling.toList ++ t → Alike a b ∧ s = t

theorem legibleNames_unary {op : UnaryOp} {e : Expr} :
    (Expr.unary op e).LegibleNames ↔ e.LegibleNames := by
  simp [LegibleNames]

theorem legibleNames_binary {op : BinaryOp} {l r : Expr} :
    (Expr.binary op l r).LegibleNames ↔ l.LegibleNames ∧ r.LegibleNames := by
  simp only [LegibleNames, mem_vars_binary, or_imp, forall_and]

theorem readsWhole_unary (op : UnaryOp) {x : Expr} (names : x.LegibleNames) (read : ReadsOff x) :
    ReadsWhole (.unary op x) := by
  intro b s t names' operation hs ht same
  cases b with
  | var v => cases operation
  | const c => cases operation
  | unary op' x' =>
    rw [spelling_unary, spelling_unary] at same
    obtain ⟨rfl, rest⟩ := UnaryOp.symbol_append_inj same
    obtain ⟨alike, ends⟩ := read x' s t (legibleNames_unary.mp names') hs.stops ht.stops rest
    exact ⟨alike.unary op, ends⟩
  | binary op' l r =>
    exact absurd same (unary_ne_binary names (legibleNames_binary.mp names').1 hs)

theorem readsWhole_binary (op : BinaryOp) {l r : Expr} (names_l : l.LegibleNames)
    (names_r : r.LegibleNames) (read_l : ReadsOff l) (read_r : ReadsOff r) :
    ReadsWhole (.binary op l r) := by
  intro b s t names' operation hs ht same
  cases b with
  | var v => cases operation
  | const c => cases operation
  | unary op' x =>
    exact absurd same.symm (unary_ne_binary (legibleNames_unary.mp names') names_l ht)
  | binary op' l' r' =>
    obtain ⟨names_l', names_r'⟩ := legibleNames_binary.mp names'
    rw [spelling_binary, spelling_binary] at same
    obtain ⟨left, after_left⟩ := read_l l' _ _ names_l' (stops_symbol _ _) (stops_symbol _ _) same
    obtain ⟨rfl, after_symbol⟩ := BinaryOp.symbol_append_inj (stops_operandText names_r s)
      (stops_operandText names_r' t) after_left
    obtain ⟨right, ends⟩ := read_r r' s t names_r' hs.stops ht.stops after_symbol
    exact ⟨left.binary op right, ends⟩

theorem readsOff_leaf {a : Expr} (leaf : a.isOperation = false) (names : a.LegibleNames) :
    ReadsOff a := by
  intro b s t names' hs ht same
  have token := token_of_leaf leaf names
  rw [operandText_leaf leaf] at same
  cases kind : b.isOperation with
  | false =>
    rw [operandText_leaf kind] at same
    obtain ⟨text, ends⟩ := token.inj (token_of_leaf kind names') hs ht same
    exact ⟨.leaf leaf kind (String.toList_inj.mp text), ends⟩
  | true =>
    rw [operandText_operation kind] at same
    exact absurd same (token.ne_paren _ _)

theorem readsOff_operation {a : Expr} (operation : a.isOperation = true) (names : a.LegibleNames)
    (whole : ReadsWhole a) : ReadsOff a := by
  intro b s t names' hs ht same
  cases kind : b.isOperation with
  | false =>
    obtain ⟨alike, -⟩ := readsOff_leaf kind names' a t s names ht hs same.symm
    cases alike with
    | leaf _ leaf _ =>
      rw [operation] at leaf
      cases leaf
    | unary op _ => cases kind
    | binary op _ _ => cases kind
  | true =>
    rw [operandText_operation operation, operandText_operation kind] at same
    obtain ⟨alike, ends⟩ := whole b _ _ names' kind (closes_paren s) (closes_paren t)
      (List.cons.inj same).2
    exact ⟨alike, (List.cons.inj ends).2⟩

theorem readsOff {a : Expr} (names : a.LegibleNames) : ReadsOff a := by
  induction a with
  | var v => exact readsOff_leaf rfl names
  | const c => exact readsOff_leaf rfl names
  | unary op e ih =>
    have below := legibleNames_unary.mp names
    exact readsOff_operation rfl names (readsWhole_unary op below (ih below))
  | binary op l r ihl ihr =>
    obtain ⟨names_l, names_r⟩ := legibleNames_binary.mp names
    have left := ihl names_l
    have right := ihr names_r
    exact readsOff_operation rfl names (readsWhole_binary op names_l names_r left right)

theorem readsWhole {a : Expr} (operation : a.isOperation = true) (names : a.LegibleNames) :
    ReadsWhole a := by
  cases a with
  | var v => cases operation
  | const c => cases operation
  | unary op e =>
    have below := legibleNames_unary.mp names
    exact readsWhole_unary op below (readsOff below)
  | binary op l r =>
    obtain ⟨names_l, names_r⟩ := legibleNames_binary.mp names
    exact readsWhole_binary op names_l names_r (readsOff names_l) (readsOff names_r)

theorem isNegatedLeaf_of_leaf {a b : Expr} (names : a.LegibleNames) (names' : b.LegibleNames)
    (leaf : a.isOperation = false) (operation : b.isOperation = true) (same : a.spelling = b.spelling) :
    b.isNegatedLeaf = true := by
  have token := token_of_leaf leaf names
  have chars : a.spelling.toList ++ [] = b.spelling.toList ++ [] := by rw [same]
  cases b with
  | var v => cases operation
  | const c => cases operation
  | unary op x =>
    rw [spelling_unary] at chars
    obtain ⟨rfl, body, words, rest⟩ := token.minus_of_symbol chars
    cases kind : x.isOperation with
    | false => simp [isNegatedLeaf, kind]
    | true =>
      rw [operandText_operation kind] at rest
      exact absurd rest (words.ne_mark (by decide) _ _)
  | binary op l r =>
    rw [spelling_binary] at chars
    cases kind : l.isOperation with
    | true =>
      rw [operandText_operation kind] at chars
      exact absurd chars (token.ne_paren _ _)
    | false =>
      rw [operandText_leaf kind] at chars
      have token_l := token_of_leaf kind (legibleNames_binary.mp names').1
      have ends := (token.inj token_l stops_nil (stops_symbol op _) chars).2
      exact absurd (ends ▸ closes_nil) (not_closes_symbol op _)

theorem alike_of_operations {a b : Expr} (names : a.LegibleNames) (names' : b.LegibleNames)
    (operation : a.isOperation = true) (operation' : b.isOperation = true)
    (same : a.spelling = b.spelling) : Alike a b := by
  have chars : a.spelling.toList ++ [] = b.spelling.toList ++ [] := by rw [same]
  exact (readsWhole operation names b [] [] names' operation' closes_nil closes_nil chars).1

end Expr

end Reprise
