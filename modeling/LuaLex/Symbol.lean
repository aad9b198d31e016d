import LuaLex.Token

/-!
# Operators, punctuation and brackets

The symbols of Lua with their categories, and the rule by which a symbol goes on for a second
character.
-/

namespace LuaLex.Symbol

/-- All symbols with their categories. -/
def table : List (String × TokenKind) := [
  ("-", .operator), ("~", .operator), ("#", .operator), ("~=", .operator), ("<=", .operator),
  (">=", .operator), ("==", .operator), ("+", .operator), ("*", .operator), ("/", .operator),
  ("//", .operator), ("^", .operator), ("%", .operator), ("&", .operator), ("|", .operator),
  (">>", .operator), ("<<", .operator), ("..", .operator), (">", .operator), ("<", .operator),
  ("=", .operator),
  ("\x7b", .bracketOpen), ("(", .bracketOpen), ("[", .bracketOpen),
  ("\x7d", .bracketClose), (")", .bracketClose), ("]", .bracketClose),
  (".", .punctuation), (",", .punctuation), (";", .punctuation), (":", .punctuation),
  ("::", .punctuation)]

/-- The category of a symbol, `none` for a text that is none. -/
def kind? (text : String) : Option TokenKind :=
  table.lookup text

/-- Whether a symbol that begins with `first` takes the character `next` behind it: the doubled
symbols `::`, `..`, `==` and `//`, the shifts, and the comparisons that end in an equals sign. -/
def continues (first next : Char) : Bool :=
  match first with
  | ':' | '.' | '=' | '/' => next == first
  | '<' | '>' => next == first || next == '='
  | '~' => next == '='
  | _ => false

end LuaLex.Symbol
