import Reprise.Json.Decode

/-!
Reading JSON texts. Nesting is limited; every reader takes fuel, of which the length of the text is
enough. Where a text stops being JSON the document ends in a `fault` and nothing after it is read. A
part that has the form of JSON but no value is passed over, at any depth.
-/
set_option autoImplicit false

namespace Reprise

namespace Json

/-- The number of arrays and objects that may stand one inside the other. -/
def depthLimit : Nat := 127

def isBlank (c : Char) : Bool := c == ' ' || c == '\n' || c == '\t' || c == '\r'

def skipBlanks : List Char → List Char := List.dropWhile isBlank

def afterWord (word : List Char) (cs : List Char) : Option (List Char) :=
  if word.isPrefixOf cs then some (cs.drop word.length) else none

def hexValue? (c : Char) : Option Nat :=
  if '0' ≤ c ∧ c ≤ '9' then some (c.toNat - 48)
  else if 'a' ≤ c ∧ c ≤ 'f' then some (c.toNat - 87)
  else if 'A' ≤ c ∧ c ≤ 'F' then some (c.toNat - 55)
  else none

def unit? (a b c d : Char) : Option Nat := do
  let a ← hexValue? a
  let b ← hexValue? b
  let c ← hexValue? c
  let d ← hexValue? d
  some (((a * 16 + b) * 16 + c) * 16 + d)

def isHighHalf (n : Nat) : Bool := 0xD800 ≤ n && n < 0xDC00

def isLowHalf (n : Nat) : Bool := 0xDC00 ≤ n && n < 0xE000

def unescape? (c : Char) : Option Char :=
  match c with
  | '"' => some '"'
  | '\\' => some '\\'
  | '/' => some '/'
  | 'b' => some '\x08'
  | 'f' => some '\x0c'
  | 'n' => some '\n'
  | 'r' => some '\r'
  | 't' => some '\t'
  | _ => none

/-- Reads a text up to the closing quote. Characters beyond the 16-bit ones may be written as two
halves; a half alone is refused, and so are bare control characters. -/
def readQuoted : List Char → Option (List Char × List Char)
  | [] => none
  | '"' :: rest => some ([], rest)
  | '\\' :: 'u' :: a :: b :: c :: d :: rest =>
    match unit? a b c d with
    | none => none
    | some n =>
      if isLowHalf n then none
      else if isHighHalf n then
        match rest with
        | '\\' :: 'u' :: e :: f :: g :: h :: rest =>
          match unit? e f g h with
          | none => none
          | some m =>
            if isLowHalf m then
              (readQuoted rest).map fun (s, rest) =>
                (Char.ofNat (0x10000 + (n - 0xD800) * 0x400 + (m - 0xDC00)) :: s, rest)
            else none
        | _ => none
      else (readQuoted rest).map fun (s, rest) => (Char.ofNat n :: s, rest)
  | '\\' :: c :: rest =>
    match unescape? c with
    | none => none
    | some c => (readQuoted rest).map fun (s, rest) => (c :: s, rest)
  | c :: rest =>
    if c.toNat < 32 ∨ c = '\\' then none
    else (readQuoted rest).map fun (s, rest) => (c :: s, rest)

def isDigit (c : Char) : Bool := '0' ≤ c && c ≤ '9'

def digitsValue (digits : List Char) : Nat :=
  digits.foldl (fun n c => n * 10 + (c.toNat - 48)) 0

def readDigits (cs : List Char) : Option (List Char × List Char) :=
  match cs.takeWhile isDigit with
  | [] => none
  | digits => some (digits, cs.dropWhile isDigit)

def readFraction : List Char → Option (Option (List Char) × List Char)
  | '.' :: rest => (readDigits rest).map fun (digits, rest) => (some digits, rest)
  | rest => some (none, rest)

def readPower (negative : Bool) (cs : List Char) : Option (Option Int × List Char) :=
  (readDigits cs).map fun (digits, rest) =>
    (some (if negative then -(digitsValue digits : Int) else digitsValue digits), rest)

def readExponent : List Char → Option (Option Int × List Char)
  | c :: rest =>
    if c = 'e' ∨ c = 'E' then
      match rest with
      | '+' :: rest => readPower false rest
      | '-' :: rest => readPower true rest
      | rest => readPower false rest
    else some (none, c :: rest)
  | [] => some (none, [])

/-- A whole number within 64 bits keeps its value; `-0` and larger ones are doubles. -/
def wholeNumber (negative : Bool) (n : Nat) : Option Json :=
  if negative then
    if 0 < n ∧ n ≤ 1 <<< 63 then some (.int (-(n : Int)))
    else (Binary64.ofDecimal? true ⟨n, 0⟩).map .float
  else if n < 1 <<< 64 then some (.int n)
  else (Binary64.ofDecimal? false ⟨n, 0⟩).map .float

/-- Reads a number after its sign; one too large for a double has no value. -/
def readUnsigned (negative : Bool) (cs : List Char) : Option (Json × List Char) := do
  let (whole, rest) ← readDigits cs
  if whole.head? = some '0' ∧ 1 < whole.length then none
  let (fraction, rest) ← readFraction rest
  let (power, rest) ← readExponent rest
  let value := match fraction, power with
    | none, none => wholeNumber negative (digitsValue whole)
    | _, _ =>
      let fraction := fraction.getD []
      let exponent := power.getD 0 - fraction.length
      (Binary64.ofDecimal? negative ⟨digitsValue (whole ++ fraction), exponent⟩).map .float
  some (value.getD .void, rest)

def readNumber : List Char → Option (Json × List Char)
  | '-' :: rest => readUnsigned true rest
  | cs => readUnsigned false cs

def skipQuoted : List Char → Option (List Char)
  | [] => none
  | '"' :: rest => some rest
  | '\\' :: 'u' :: a :: b :: c :: d :: rest =>
    if (unit? a b c d).isSome then skipQuoted rest else none
  | '\\' :: c :: rest => if (unescape? c).isSome then skipQuoted rest else none
  | c :: rest => if c.toNat < 32 ∨ c = '\\' then none else skipQuoted rest

/-- Reads a text after the opening quote; one with half a character has no value. -/
def readText (cs : List Char) : Option (Json × List Char) :=
  match readQuoted cs with
  | some (s, rest) => some (.text (String.ofList s), rest)
  | none => (skipQuoted cs).map (.void, ·)

def readScalar : List Char → Option (Json × List Char)
  | '"' :: rest => readText rest
  | 'n' :: rest => (afterWord "ull".toList rest).map (.null, ·)
  | 't' :: rest => (afterWord "rue".toList rest).map (.bool true, ·)
  | 'f' :: rest => (afterWord "alse".toList rest).map (.bool false, ·)
  | cs => readNumber cs

inductive Bracket where
  | array
  | object

def skipName (cs : List Char) : Option (List Char) :=
  match skipBlanks cs with
  | '"' :: rest =>
    match (skipQuoted rest).map skipBlanks with
    | some (':' :: rest) => some rest
    | _ => none
  | _ => none

mutual

/-- Passes over a document and what still stands in the brackets around it, the innermost first. -/
def skipValue : Nat → List Bracket → List Char → Option (List Char)
  | 0, _, _ => none
  | fuel + 1, around, cs =>
    match skipBlanks cs with
    | '[' :: rest =>
      match skipBlanks rest with
      | ']' :: rest => skipAround fuel around rest
      | rest => skipValue fuel (.array :: around) rest
    | '\x7b' :: rest =>
      match skipBlanks rest with
      | '\x7d' :: rest => skipAround fuel around rest
      | rest => (skipName rest).bind (skipValue fuel (.object :: around))
    | cs => (readScalar cs).bind fun (_, rest) => skipAround fuel around rest

def skipAround : Nat → List Bracket → List Char → Option (List Char)
  | 0, _, _ => none
  | _, [], cs => some cs
  | fuel + 1, .array :: around, cs =>
    match skipBlanks cs with
    | ',' :: rest => skipValue fuel (.array :: around) rest
    | ']' :: rest => skipAround fuel around rest
    | _ => none
  | fuel + 1, .object :: around, cs =>
    match skipBlanks cs with
    | ',' :: rest => (skipName rest).bind (skipValue fuel (.object :: around))
    | '\x7d' :: rest => skipAround fuel around rest
    | _ => none

end

def orFault (read : Option (Json × List Char)) : Json × Option (List Char) :=
  match read with
  | some (value, rest) => (value, some rest)
  | none => (.fault, none)

mutual

/-- Reads one document with at most `depth` levels; no rest means that a fault was met. -/
def readValue : Nat → Nat → List Char → Json × Option (List Char)
  | 0, _, _ => (.fault, none)
  | fuel + 1, depth, cs =>
    match skipBlanks cs with
    | '[' :: rest =>
      if depth = 0 then orFault <| (skipValue fuel [] ('[' :: rest)).map (.void, ·)
      else
        match skipBlanks rest with
        | ']' :: rest => (.array [], some rest)
        | rest =>
          let (items, rest) := readItems fuel (depth - 1) rest
          (.array items, rest)
    | '\x7b' :: rest =>
      if depth = 0 then orFault <| (skipValue fuel [] ('\x7b' :: rest)).map (.void, ·)
      else
        match skipBlanks rest with
        | '\x7d' :: rest => (.object [], some rest)
        | rest =>
          let (fields, rest) := readFields fuel (depth - 1) rest
          (.object fields, rest)
    | cs => orFault (readScalar cs)

def readItems : Nat → Nat → List Char → List Json × Option (List Char)
  | 0, _, _ => ([.fault], none)
  | fuel + 1, depth, cs =>
    match readValue fuel depth cs with
    | (item, none) => ([item], none)
    | (item, some rest) =>
      match skipBlanks rest with
      | ']' :: rest => ([item], some rest)
      | ',' :: rest =>
        let (items, rest) := readItems fuel depth rest
        (item :: items, rest)
      | _ => ([item, .fault], none)

def readFields : Nat → Nat → List Char → List (String × Json) × Option (List Char)
  | 0, _, _ => ([("", .fault)], none)
  | fuel + 1, depth, cs =>
    match skipBlanks cs with
    | '"' :: rest =>
      match readQuoted rest with
      | none =>
        match (skipName ('"' :: rest)).bind (skipValue fuel [.object]) with
        | some rest => ([("", .nameless)], some rest)
        | none => ([("", .fault)], none)
      | some (name, rest) =>
        let name := String.ofList name
        match skipBlanks rest with
        | ':' :: rest =>
          match readValue fuel depth rest with
          | (value, none) => ([(name, value)], none)
          | (value, some rest) =>
            match skipBlanks rest with
            | '\x7d' :: rest => ([(name, value)], some rest)
            | ',' :: rest =>
              let (fields, rest) := readFields fuel depth rest
              ((name, value) :: fields, rest)
            | _ => ([(name, value), ("", .fault)], none)
        | _ => ([(name, .fault)], none)
    | _ => ([("", .fault)], none)

end

def read (s : String) : Json × Bool :=
  let cs := s.toList
  match readValue (2 * cs.length + 2) depthLimit cs with
  | (value, none) => (value, false)
  | (value, some rest) => (value, (skipBlanks rest).isEmpty)

def parse? (s : String) : Option Json :=
  match read s with
  | (value, true) => some value
  | (_, false) => none

def decodeText {α : Type} (decode : Decoder α) (s : String) : Except DecodeFault α :=
  match read s with
  | (j, complete) =>
    match decode j with
    | .error f => .error f
    | .ok a => if complete then .ok a else .error .malformed

end Json

end Reprise
