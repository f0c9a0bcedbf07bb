import Reprise.Json.Basic

/-!
JSON texts. A printer puts the text of a document in front of the characters that follow it. `render`
is the compact form, `pretty` the indented one. Control characters, quotes and backslashes are
escaped, all else is written as it is.
-/
set_option autoImplicit false

namespace Reprise

namespace Json

def hexDigit (n : Nat) : Char := if n < 10 then Char.ofNat (48 + n) else Char.ofNat (87 + n)

def escape (c : Char) : List Char :=
  match c with
  | '"' => ['\\', '"']
  | '\\' => ['\\', '\\']
  | '\x08' => ['\\', 'b']
  | '\x0c' => ['\\', 'f']
  | '\n' => ['\\', 'n']
  | '\r' => ['\\', 'r']
  | '\t' => ['\\', 't']
  | c =>
    if c.toNat < 32 then ['\\', 'u', '0', '0', hexDigit (c.toNat / 16), hexDigit (c.toNat % 16)]
    else [c]

def putQuoted (s : String) (rest : List Char) : List Char :=
  '"' :: (s.toList.flatMap escape ++ '"' :: rest)

def putScalar : Json → List Char → List Char
  | .null, rest => "null".toList ++ rest
  | .bool true, rest => "true".toList ++ rest
  | .bool false, rest => "false".toList ++ rest
  | .int n, rest => (toString n).toList ++ rest
  | .float x, rest => if x.isFinite then x.literal.toList ++ rest else "null".toList ++ rest
  | .text s, rest => putQuoted s rest
  | .array _, rest | .object _, rest | .void, rest | .nameless, rest | .fault, rest => rest

mutual

def put : Json → List Char → List Char
  | .array items, rest => '[' :: putItems items (']' :: rest)
  | .object fields, rest => '\x7b' :: putFields fields ('\x7d' :: rest)
  | leaf, rest => leaf.putScalar rest

def putItems : List Json → List Char → List Char
  | [], rest => rest
  | [item], rest => item.put rest
  | item :: more, rest => item.put (',' :: putItems more rest)

def putFields : List (String × Json) → List Char → List Char
  | [], rest => rest
  | [(name, value)], rest => putQuoted name (':' :: value.put rest)
  | (name, value) :: more, rest => putQuoted name (':' :: value.put (',' :: putFields more rest))

end

def render (j : Json) : String := String.ofList (j.put [])

def putNewline (level : Nat) (rest : List Char) : List Char :=
  '\n' :: (List.replicate (2 * level) ' ' ++ rest)

mutual

def putPretty (level : Nat) : Json → List Char → List Char
  | .array [], rest => '[' :: ']' :: rest
  | .array items, rest => '[' :: putPrettyItems (level + 1) items (putNewline level (']' :: rest))
  | .object [], rest => '\x7b' :: '\x7d' :: rest
  | .object fields, rest =>
    '\x7b' :: putPrettyFields (level + 1) fields (putNewline level ('\x7d' :: rest))
  | leaf, rest => leaf.putScalar rest

def putPrettyItems (level : Nat) : List Json → List Char → List Char
  | [], rest => rest
  | [item], rest => putNewline level (item.putPretty level rest)
  | item :: more, rest =>
    putNewline level (item.putPretty level (',' :: putPrettyItems level more rest))

def putPrettyFields (level : Nat) : List (String × Json) → List Char → List Char
  | [], rest => rest
  | [(name, value)], rest =>
    putNewline level (putQuoted name (':' :: ' ' :: value.putPretty level rest))
  | (name, value) :: more, rest =>
    putNewline level
      (putQuoted name (':' :: ' ' :: value.putPretty level (',' :: putPrettyFields level more rest)))

end

def pretty (j : Json) : String := String.ofList (j.putPretty 0 [])

end Json

end Reprise
