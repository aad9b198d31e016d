import LuaLex.Text.Unprintable

/-!
# Quoted text

Text shown on one line between double quotes. The quote, the backslash and the common controls have
escapes of two characters, any other character without a glyph is written by its code point in
braces, and the rest stands as it is. Which characters have no glyph is told by a predicate; it is
the one of `Text.Unprintable` if none is given.
-/

namespace LuaLex.Text.Quoted

/-- The escape by code point: lower case hexadecimal digits in braces, without leading zeros. -/
def codePoint (c : Char) : List Char :=
  ['\\', 'u', '{'] ++ Nat.toDigits 16 c.toNat ++ ['}']

/-- How one character is written between the quotes. -/
def escape (unprintable : Char → Bool) (c : Char) : List Char :=
  match c with
  | '\x00' => ['\\', '0']
  | '\t' => ['\\', 't']
  | '\n' => ['\\', 'n']
  | '\r' => ['\\', 'r']
  | '"' => ['\\', '"']
  | '\\' => ['\\', '\\']
  | _ => if unprintable c then codePoint c else [c]

/-- A text between double quotes. -/
def quote (s : String) (unprintable : Char → Bool := Unprintable.isUnprintable) : String :=
  String.ofList ('"' :: s.toList.flatMap (escape unprintable) ++ ['"'])

end LuaLex.Text.Quoted
