/-!
# Compact JSON

JSON values as far as records of tokens need them, and their compact form: no blanks, the members of
an object in their order, and escapes only where the format demands them.
-/

namespace LuaLex

/-- A JSON value made of texts, counts, lists and records. -/
inductive Json where
  | text (s : String)
  | count (n : Nat)
  | list (items : List Json)
  | record (fields : List (String × Json))

namespace Json

/-- A hexadecimal digit, in lower case. -/
def hexDigit (n : Nat) : Char := Nat.digitChar n

/-- How one character is written in a JSON string. -/
def escape (c : Char) : List Char :=
  match c with
  | '"' => ['\\', '"']
  | '\\' => ['\\', '\\']
  | '\x08' => ['\\', 'b']
  | '\t' => ['\\', 't']
  | '\n' => ['\\', 'n']
  | '\x0c' => ['\\', 'f']
  | '\r' => ['\\', 'r']
  | _ =>
    if c.toNat < 0x20 then ['\\', 'u', '0', '0', hexDigit (c.toNat / 16), hexDigit (c.toNat % 16)]
    else [c]

/-- A text as a JSON string. -/
def quote (s : String) : List Char :=
  '"' :: s.toList.flatMap escape ++ ['"']

mutual

/-- The compact form of a value. -/
def chars : Json → List Char
  | text s => quote s
  | count n => Nat.toDigits 10 n
  | list items => '[' :: itemChars items ++ [']']
  | record fields => '{' :: fieldChars fields ++ ['}']

/-- The items of a list with commas between them. -/
def itemChars : List Json → List Char
  | [] => []
  | [item] => chars item
  | item :: next :: rest => chars item ++ ',' :: itemChars (next :: rest)

/-- The fields of a record with commas between them. -/
def fieldChars : List (String × Json) → List Char
  | [] => []
  | [(key, value)] => quote key ++ ':' :: chars value
  | (key, value) :: next :: rest =>
    quote key ++ ':' :: chars value ++ ',' :: fieldChars (next :: rest)

end

/-- The compact form of a value as a text. -/
def render (value : Json) : String := String.ofList value.chars

end Json

end LuaLex
