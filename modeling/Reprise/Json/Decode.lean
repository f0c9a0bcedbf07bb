import Reprise.Fault
import Reprise.Json.Basic

/-!
From JSON documents to values. Parts are decoded in the order of the document, so the first thing
wrong in it is the one that is reported. A text is decoded while it is read, and of an alternative
only the end can then show that there is too much; in a tree that is seen first, and what an
alternative carries has its fields by name.
-/
set_option autoImplicit false

namespace Reprise

inductive DecodeFault where
  | malformed
  /-- It has the form, but the expression it describes cannot be built. -/
  | refused (fault : ExprFault)
deriving DecidableEq

namespace Json

abbrev Decoder (α : Type) : Type := Json → Except DecodeFault α

inductive Source where
  | text
  | tree
deriving DecidableEq

mutual

/-- Whether there is no fault in the document, so that it can be passed over. -/
def isWhole : Json → Bool
  | .fault => false
  | .array items => areWhole items
  | .object fields => fieldsAreWhole fields
  | _ => true

def areWhole : List Json → Bool
  | [] => true
  | item :: rest => item.isWhole && areWhole rest

def fieldsAreWhole : List (String × Json) → Bool
  | [] => true
  | (_, value) :: rest => value.isWhole && fieldsAreWhole rest

end

def asInt64 : Decoder Int64
  | .int n =>
    if Int64.minValue.toInt ≤ n ∧ n ≤ Int64.maxValue.toInt then .ok (Int64.ofInt n)
    else .error .malformed
  | _ => .error .malformed

def asNatBelow (bound : Nat) : Decoder Nat
  | .int n => if 0 ≤ n ∧ n < bound then .ok n.toNat else .error .malformed
  | _ => .error .malformed

def asWord : Decoder UInt32 := fun j => (j.asNatBelow (1 <<< 32)).map UInt32.ofNat

def asCount : Decoder Nat := asNatBelow (1 <<< 64)

/-- A whole number also counts as a double. -/
def asReal : Decoder Binary64
  | .float x => .ok x
  | .int n => .ok (Binary64.ofInt n)
  | _ => .error .malformed

def asText : Decoder String
  | .text s => .ok s
  | _ => .error .malformed

def asBool : Decoder Bool
  | .bool b => .ok b
  | _ => .error .malformed

variable {α σ : Type}

def decodeItems (decode : Decoder α) : List Json → Except DecodeFault (List α)
  | [] => .ok []
  | item :: rest =>
    match decode item with
    | .error f => .error f
    | .ok a => (decodeItems decode rest).map (a :: ·)

def asList (decode : Decoder α) : Decoder (List α)
  | .array items => decodeItems decode items
  | _ => .error .malformed

def asOption (decode : Decoder α) : Decoder (Option α)
  | .null => .ok none
  | j => (decode j).map some

def asPair {β : Type} (first : Decoder α) (second : Decoder β) : Decoder (α × β)
  | .array (a :: rest) =>
    match first a, rest with
    | .error f, _ => .error f
    | .ok a, b :: rest =>
      match second b with
      | .error f => .error f
      | .ok b => if rest.isEmpty then .ok (a, b) else .error .malformed
    | .ok _, [] => .error .malformed
  | _ => .error .malformed

/-- One field of a record: its name, and how its value enters what is known of the record. -/
structure Field (σ : Type) where
  name : String
  enter : Json → σ → Except DecodeFault σ

def Field.of (name : String) (decode : Decoder α) (keep : σ → α → σ) : Field σ :=
  ⟨name, fun j s => (decode j).map (keep s)⟩

/-- Enters the fields of an object. Unknown names are passed over, a known name may come once. -/
def enterFields (fields : List (Field σ)) :
    List String → List (String × Json) → σ → Except DecodeFault σ
  | _, [], s => .ok s
  | seen, (name, value) :: rest, s =>
    match value, fields.find? (·.name == name) with
    | .nameless, _ => .error .malformed
    | value, none => if value.isWhole then enterFields fields seen rest s else .error .malformed
    | value, some field =>
      if seen.contains name then .error .malformed
      else
        match field.enter value s with
        | .error f => .error f
        | .ok s => enterFields fields (name :: seen) rest s

def enterItems : List (Field σ) → List Json → σ → Except DecodeFault σ
  | _, [], s => .ok s
  | [], _ :: _, _ => .error .malformed
  | field :: fields, item :: rest, s =>
    match field.enter item s with
    | .error f => .error f
    | .ok s => enterItems fields rest s

/-- A record is an object with named fields or an array of the fields in order, of which the first
`required` must be there. -/
def asRecord (fields : List (Field σ)) (required : Nat) (start : σ) : Decoder σ
  | .object entries => enterFields fields [] entries start
  | .array items =>
    match enterItems fields items start with
    | .error f => .error f
    | .ok s => if items.length < required then .error .malformed else .ok s
  | _ => .error .malformed

def asCarried (source : Source) (fields : List (Field σ)) (required : Nat) (start : σ) : Decoder σ :=
  fun j =>
    match source, j with
    | .tree, .array _ => .error .malformed
    | _, j => j.asRecord fields required start

def require : Option α → Except DecodeFault α
  | some a => .ok a
  | none => .error .malformed

/-- One of several alternatives: a bare name, or an object whose single field is named for the
alternative. A bare name may also be written as a field without value. -/
def asChoice (source : Source) (bare : String → Option α) (carrying : String → Option (Decoder α)) :
    Decoder α
  | .text name => require (bare name)
  | .object ((name, value) :: rest) =>
    if source = .tree && !rest.isEmpty then .error .malformed
    else
      let decoded :=
        match carrying name, bare name, value with
        | some decode, _, value => decode value
        | none, some a, .null => .ok a
        | none, _, _ => .error .malformed
      match decoded with
      | .error f => .error f
      | .ok a => if rest.isEmpty then .ok a else .error .malformed
  | _ => .error .malformed

end Json

end Reprise
