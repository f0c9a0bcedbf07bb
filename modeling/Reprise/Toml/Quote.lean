/-!
Writing texts in TOML. Of the four ways to quote a text the first is taken that needs no escapes:
double quotes, single quotes, three double quotes, three single quotes. A text that cannot do without
escapes stands in double quotes, three of them if it has several lines.
-/
set_option autoImplicit false

namespace Reprise

namespace Toml

/-- Control characters that no quotes let through as they are. -/
def needsCode (c : Char) : Bool := (c.toNat < 32 || c.toNat == 127) && c != '\t' && c != '\n'

def longestRun (quote : Char) : Nat → Nat → List Char → Nat
  | run, longest, [] => max run longest
  | run, longest, c :: rest =>
    if c = quote then longestRun quote (run + 1) longest rest
    else longestRun quote 0 (max run longest) rest

inductive QuoteStyle where
  | basic
  | literal
  | longBasic
  | longLiteral
deriving DecidableEq

namespace QuoteStyle

def isLong : QuoteStyle → Bool
  | .basic | .literal => false
  | .longBasic | .longLiteral => true

def isLiteral : QuoteStyle → Bool
  | .basic | .longBasic => false
  | .literal | .longLiteral => true

def mark (style : QuoteStyle) : Char := if style.isLiteral then '\'' else '"'

/-- The longest run of its own mark that a text may have between such quotes. -/
def allowance (style : QuoteStyle) : Nat := if style.isLong then 2 else 0

def holds (style : QuoteStyle) (cs : List Char) : Bool :=
  !cs.any needsCode
    && (style.isLong || !cs.contains '\n')
    && (style.isLiteral || !cs.contains '\\')
    && longestRun style.mark 0 0 cs ≤ style.allowance

def of (cs : List Char) : QuoteStyle :=
  match [basic, literal, longBasic, longLiteral].find? (·.holds cs) with
  | some style => style
  | none => if cs.contains '\n' then .longBasic else .basic

end QuoteStyle

def hexDigit (n : Nat) : Char := if n < 10 then Char.ofNat (48 + n) else Char.ofNat (55 + n)

/-- A character between double quotes; between three of them a line end stays one. -/
def escape (long : Bool) (c : Char) : List Char :=
  match c with
  | '\x08' => ['\\', 'b']
  | '\t' => ['\\', 't']
  | '\n' => if long then ['\n'] else ['\\', 'n']
  | '\x0c' => ['\\', 'f']
  | '\r' => ['\\', 'r']
  | '\\' => ['\\', '\\']
  | c =>
    if needsCode c then ['\\', 'u', '0', '0', hexDigit (c.toNat / 16), hexDigit (c.toNat % 16)]
    else [c]

/-- The text between double quotes; `run` quotes have just been written as they are. -/
def escapeFrom (style : QuoteStyle) : Nat → List Char → List Char
  | _, [] => []
  | run, '"' :: rest =>
    if run < style.allowance then '"' :: escapeFrom style (run + 1) rest
    else '\\' :: '"' :: escapeFrom style 0 rest
  | _, c :: rest => escape style.isLong c ++ escapeFrom style 0 rest

/-- Between three quotes a text of several lines begins on a line of its own. -/
def quote (s : String) : String :=
  let cs := s.toList
  let style := QuoteStyle.of cs
  let marks := List.replicate (if style.isLong then 3 else 1) style.mark
  let start := if style.isLong && cs.contains '\n' then ['\n'] else []
  let body := if style.isLiteral then cs else escapeFrom style 0 cs
  String.ofList (marks ++ start ++ body ++ marks)

end Toml

end Reprise
