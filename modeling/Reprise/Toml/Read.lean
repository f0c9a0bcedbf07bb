import Reprise.Decimal.Notation
import Reprise.Toml.Basic

/-!
Reading TOML texts. Readers give back what follows; a text that is not TOML gives nothing.
-/
set_option autoImplicit false

namespace Reprise

namespace Toml

abbrev Chars : Type := List Char

def isBlank (c : Char) : Bool := c == ' ' || c == '\t'

def skipBlanks : Chars → Chars := List.dropWhile isBlank

/-- Characters that a comment or a quoted text may hold as they are. -/
def isPlain (c : Char) : Bool := c == '\t' || (32 ≤ c.toNat && c.toNat != 127)

def skipComment : Chars → Chars
  | '#' :: rest => rest.dropWhile isPlain
  | rest => rest

def newline? : Chars → Option Chars
  | '\n' :: rest => some rest
  | '\r' :: '\n' :: rest => some rest
  | _ => none

def skipSpace : Nat → Chars → Chars
  | 0, cs => cs
  | fuel + 1, cs =>
    let cs := skipComment (skipBlanks cs)
    match newline? cs with
    | some rest => skipSpace fuel rest
    | none => cs

def hexValue? (c : Char) : Option Nat :=
  if '0' ≤ c ∧ c ≤ '9' then some (c.toNat - 48)
  else if 'a' ≤ c ∧ c ≤ 'f' then some (c.toNat - 87)
  else if 'A' ≤ c ∧ c ≤ 'F' then some (c.toNat - 55)
  else none

def codePoint? (count : Nat) (cs : Chars) : Option (Char × Chars) := do
  let digits ← (cs.take count).mapM hexValue?
  if digits.length ≠ count then none
  let n := digits.foldl (fun n d => n * 16 + d) 0
  if h : n.isValidChar then some (Char.ofNatAux n h, cs.drop count) else none

def escape? : Chars → Option (Char × Chars)
  | 'b' :: rest => some ('\x08', rest)
  | 't' :: rest => some ('\t', rest)
  | 'n' :: rest => some ('\n', rest)
  | 'f' :: rest => some ('\x0c', rest)
  | 'r' :: rest => some ('\r', rest)
  | '"' :: rest => some ('"', rest)
  | '\\' :: rest => some ('\\', rest)
  | 'u' :: rest => codePoint? 4 rest
  | 'U' :: rest => codePoint? 8 rest
  | _ => none

def basicText : Nat → Chars → Option (Chars × Chars)
  | 0, _ => none
  | fuel + 1, cs =>
    match cs with
    | '"' :: rest => some ([], rest)
    | '\\' :: rest => do
      let (c, rest) ← escape? rest
      let (s, rest) ← basicText fuel rest
      some (c :: s, rest)
    | c :: rest =>
      if isPlain c then (basicText fuel rest).map fun (s, rest) => (c :: s, rest) else none
    | [] => none

/-- A text in single quotes, after the opening one; nothing is escaped. -/
def literalText (cs : Chars) : Option (Chars × Chars) :=
  let isInner (c : Char) : Bool := isPlain c && c != '\''
  match cs.dropWhile isInner with
  | '\'' :: rest => some (cs.takeWhile isInner, rest)
  | _ => none

def skipWhite : Nat → Chars → Chars
  | 0, cs => cs
  | fuel + 1, cs =>
    match newline? (skipBlanks cs) with
    | some rest => skipWhite fuel rest
    | none => skipBlanks cs

/-- What follows a backslash at the end of a line, blank lines and indentation passed over. -/
def lineContinuation? (cs : Chars) : Option Chars :=
  (newline? (skipBlanks cs)).map fun rest => skipWhite rest.length rest

/-- The end of a text in triple quotes: up to two quotes before the closing three belong to it. -/
def closing? (quote : Char) (cs : Chars) : Option (Chars × Chars) :=
  let run := (cs.takeWhile (· == quote)).length
  if 3 ≤ run ∧ run ≤ 5 then some (List.replicate (run - 3) quote, cs.drop run) else none

def longText (quote : Char) (escapes : Bool) : Nat → Chars → Option (Chars × Chars)
  | 0, _ => none
  | fuel + 1, cs =>
    match closing? quote cs with
    | some (s, rest) => some (s, rest)
    | none =>
      match cs with
      | [] => none
      | c :: rest =>
        if escapes && c == '\\' then
          match lineContinuation? rest with
          | some rest => longText quote escapes fuel rest
          | none => do
            let (c, rest) ← escape? rest
            let (s, rest) ← longText quote escapes fuel rest
            some (c :: s, rest)
        else
          match newline? (c :: rest) with
          | some rest => (longText quote escapes fuel rest).map fun (s, rest) => ('\n' :: s, rest)
          | none =>
            if isPlain c && (c != quote || (cs.takeWhile (· == quote)).length ≤ 2) then
              (longText quote escapes fuel rest).map fun (s, rest) => (c :: s, rest)
            else none

/-- A line end right after the opening quotes is not part of the text. -/
def dropFirstNewline (cs : Chars) : Chars := (newline? cs).getD cs

def quoted? (fuel : Nat) : Chars → Option (Chars × Chars)
  | '"' :: '"' :: '"' :: rest => longText '"' true fuel (dropFirstNewline rest)
  | '\'' :: '\'' :: '\'' :: rest => longText '\'' false fuel (dropFirstNewline rest)
  | '"' :: rest => basicText fuel rest
  | '\'' :: rest => literalText rest
  | _ => none

def isDigit (c : Char) : Bool := '0' ≤ c && c ≤ '9'

def digits? (isDigit : Char → Bool) (cs : Chars) : Option Chars :=
  let wellPlaced := cs.head? != some '_' && cs.getLast? != some '_'
    && (cs.zip (cs.drop 1)).all fun (a, b) => !(a == '_' && b == '_')
  let digits := cs.filter (· != '_')
  if wellPlaced && !digits.isEmpty && digits.all isDigit then some digits else none

def numberIn (base : Nat) (digits : Chars) : Nat :=
  digits.foldl (fun n c => n * base + (hexValue? c).getD 0) 0

/-- The digits of a decimal number, which has no zero in front. -/
def decimal? (cs : Chars) : Option Chars := do
  let digits ← digits? isDigit cs
  if cs.head? = some '0' ∧ 1 < cs.length then none else some digits

/-- Whole numbers are held within 64 bits. -/
def ofInt? (n : Int) : Option Toml :=
  if Int64.minValue.toInt ≤ n ∧ n ≤ Int64.maxValue.toInt then some (.int n) else none

def splitSign (cs : Chars) : Bool × Chars :=
  match cs with
  | '+' :: rest => (false, rest)
  | '-' :: rest => (true, rest)
  | cs => (false, cs)

def integer? (word : Chars) : Option Toml :=
  match word with
  | '0' :: 'x' :: rest => do
    ofInt? (numberIn 16 (← digits? (fun c => (hexValue? c).isSome) rest))
  | '0' :: 'o' :: rest => do ofInt? (numberIn 8 (← digits? (fun c => '0' ≤ c && c ≤ '7') rest))
  | '0' :: 'b' :: rest => do ofInt? (numberIn 2 (← digits? (fun c => c == '0' || c == '1') rest))
  | _ => do
    let (negative, rest) := splitSign word
    let n : Int := numberIn 10 (← decimal? rest)
    ofInt? (if negative then -n else n)

/-- Whether the word is a number with a fraction or a power of ten, or one that is not finite. A
number with digits may be too large for a double only if it is negative. -/
def isFloat (word : Chars) : Bool :=
  let (negative, rest) := splitSign word
  if rest == "inf".toList || rest == "nan".toList then true
  else
    let isMark (c : Char) : Bool := c == 'e' || c == 'E'
    let mantissa := rest.takeWhile fun c => !isMark c
    let power := rest.drop mantissa.length
    let whole := mantissa.takeWhile (· != '.')
    let fraction := mantissa.drop whole.length
    let digits := (decimal? whole).bind fun digits =>
      if fraction.isEmpty then some (digits, 0)
      else (digits? isDigit (fraction.drop 1)).map fun more => (digits ++ more, more.length)
    let exponent :=
      if power.isEmpty then some 0
      else
        let (below, rest) := splitSign (power.drop 1)
        (digits? isDigit rest).map fun digits =>
          if below then -(numberIn 10 digits : Int) else numberIn 10 digits
    match digits, exponent with
    | some (digits, places), some exponent =>
      let n : Decimal := ⟨numberIn 10 digits, exponent - places⟩
      !(fraction.isEmpty && power.isEmpty) && (negative || (Binary64.ofDecimal? false n).isSome)
    | _, _ => false

def twoDigits? (low high : Nat) : Chars → Option Chars
  | a :: b :: rest =>
    let n := numberIn 10 [a, b]
    if isDigit a && isDigit b && low ≤ n && n ≤ high then some rest else none
  | _ => none

def daysIn (year month : Nat) : Nat :=
  if month = 2 then
    if year % 4 = 0 ∧ (year % 100 ≠ 0 ∨ year % 400 = 0) then 29 else 28
  else if month = 4 ∨ month = 6 ∨ month = 9 ∨ month = 11 then 30 else 31

def day? (cs : Chars) : Option Chars :=
  match cs with
  | a :: b :: c :: d :: '-' :: m :: n :: '-' :: rest =>
    if [a, b, c, d].all isDigit then do
      let _ ← twoDigits? 1 12 [m, n]
      twoDigits? 1 (daysIn (numberIn 10 [a, b, c, d]) (numberIn 10 [m, n])) rest
    else none
  | _ => none

def time? (cs : Chars) : Option Chars := do
  let rest ← twoDigits? 0 23 cs
  let ':' :: rest := rest | none
  let rest ← twoDigits? 0 59 rest
  let ':' :: rest := rest | none
  let rest ← twoDigits? 0 60 rest
  match rest with
  | '.' :: rest => if (rest.takeWhile isDigit).isEmpty then none else some (rest.dropWhile isDigit)
  | rest => some rest

def offset? : Chars → Option Chars
  | [] => some []
  | 'Z' :: rest | 'z' :: rest => some rest
  | '+' :: rest | '-' :: rest => do
    let rest ← twoDigits? 0 23 rest
    let ':' :: rest := rest | none
    twoDigits? 0 59 rest
  | rest => some rest

def isDate (word : Chars) : Bool :=
  match day? word with
  | some [] => true
  | some (c :: rest) =>
    (c == 'T' || c == 't' || c == ' ') && ((time? rest).bind offset? == some [])
  | none => time? word == some []

def isWordChar (c : Char) : Bool := c.isAlphanum || c == '+' || c == '-' || c == '_' || c == '.' || c == ':'

/-- The unquoted word at the front; a blank joins a day and a time. -/
def takeWord (cs : Chars) : Chars × Chars :=
  let word := cs.takeWhile isWordChar
  let rest := cs.drop word.length
  match rest with
  | ' ' :: c :: _ =>
    if isDigit c && day? word == some [] then
      let more := (rest.drop 1).takeWhile isWordChar
      (word ++ ' ' :: more, rest.drop (1 + more.length))
    else (word, rest)
  | _ => (word, rest)

def ofWord? (word : Chars) : Option Toml :=
  if word == "true".toList then some (.bool true)
  else if word == "false".toList then some (.bool false)
  else if isDate word then some .date
  else if isFloat word then some .float
  else integer? word

def isBareKeyChar (c : Char) : Bool := c.isAlphanum || c == '_' || c == '-'

def keyPart? (fuel : Nat) (cs : Chars) : Option (String × Chars) :=
  match cs with
  | '"' :: rest => (basicText fuel rest).map fun (s, rest) => (String.ofList s, rest)
  | '\'' :: rest => (literalText rest).map fun (s, rest) => (String.ofList s, rest)
  | cs =>
    match cs.takeWhile isBareKeyChar with
    | [] => none
    | word => some (String.ofList word, cs.drop word.length)

/-- Arrays and tables in braces may stand one inside the other so many times, and so many parts may
make up a key. -/
def depthLimit : Nat := 79

/-- A key with dots of at most so many parts, as the parts before the last and the last. -/
def keyWithin : Nat → Chars → Option (List String × String × Chars)
  | 0, _ => none
  | count + 1, cs => do
    let (part, rest) ← keyPart? (cs.length + 1) (skipBlanks cs)
    match skipBlanks rest with
    | '.' :: rest =>
      let (path, last, rest) ← keyWithin count rest
      some (part :: path, last, rest)
    | rest => some ([], part, rest)

def key? : Chars → Option (List String × String × Chars) := keyWithin depthLimit

mutual

def value? : Nat → Nat → Chars → Option (Toml × Chars)
  | 0, _, _ => none
  | fuel + 1, depth, cs =>
    match cs with
    | '"' :: _ | '\'' :: _ =>
      (quoted? (cs.length + 1) cs).map fun (s, rest) => (.text (String.ofList s), rest)
    | '[' :: rest =>
      if depth = 0 then none
      else (items? fuel (depth - 1) rest).map fun (items, rest) => (.array items, rest)
    | '\x7b' :: rest =>
      if depth = 0 then none
      else
        match skipBlanks rest with
        | '\x7d' :: rest => some (.table .inline [], rest)
        | rest => (fields? fuel (depth - 1) rest []).map fun (fields, rest) => (.table .inline fields, rest)
    | cs => do
      let (word, rest) := takeWord cs
      some (← ofWord? word, rest)

/-- The items of an array up to its bracket; a comma may follow the last one. -/
def items? : Nat → Nat → Chars → Option (List Toml × Chars)
  | 0, _, _ => none
  | fuel + 1, depth, cs =>
    match skipSpace cs.length cs with
    | ']' :: rest => some ([], rest)
    | rest => do
      let (item, rest) ← value? fuel depth rest
      match skipSpace rest.length rest with
      | ']' :: rest => some ([item], rest)
      | ',' :: rest =>
        let (items, rest) ← items? fuel depth rest
        some (item :: items, rest)
      | _ => none

def fields? : Nat → Nat → Chars → Fields → Option (Fields × Chars)
  | 0, _, _, _ => none
  | fuel + 1, depth, cs, fields => do
    let (path, key, rest) ← key? cs
    let '=' :: rest := rest | none
    let (value, rest) ← value? fuel depth (skipBlanks rest)
    let fields ← insertAt path key value fields
    match skipBlanks rest with
    | '\x7d' :: rest => some (fields, rest)
    | ',' :: rest => fields? fuel depth rest fields
    | _ => none

end

def line? (fuel : Nat) (cs : Chars) : Option (Line × Chars) :=
  match skipBlanks cs with
  | [] => some (.blank, [])
  | '#' :: rest => some (.blank, '#' :: rest)
  | '\n' :: rest => some (.blank, '\n' :: rest)
  | '\r' :: rest => some (.blank, '\r' :: rest)
  | '[' :: '[' :: rest => do
    let (path, key, rest) ← key? rest
    let ']' :: ']' :: rest := rest | none
    some (.item path key, rest)
  | '[' :: rest => do
    let (path, key, rest) ← key? rest
    let ']' :: rest := rest | none
    some (.header path key, rest)
  | rest => do
    let (path, key, rest) ← key? rest
    let '=' :: rest := rest | none
    let (value, rest) ← value? fuel depthLimit (skipBlanks rest)
    some (.pair path key value, rest)

def lines? : Nat → Chars → Option (List Line)
  | 0, _ => none
  | fuel + 1, cs => do
    let (line, rest) ← line? (2 * cs.length + 2) cs
    match skipComment (skipBlanks rest) with
    | [] => some [line]
    | rest =>
      let rest ← newline? rest
      let lines ← lines? fuel rest
      some (line :: lines)

/-- The fields of a document; a byte order mark in front is passed over. -/
def parse? (s : String) : Option Fields :=
  let cs := match s.toList with
    | '\uFEFF' :: rest => rest
    | cs => cs
  (lines? (cs.length + 1) cs).bind ofLines

end Toml

end Reprise
