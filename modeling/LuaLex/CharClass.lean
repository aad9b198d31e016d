/-!
# Character classes of Lua's lexical grammar

The classes the scanners branch on. All of them are classes of ASCII characters: Lua's names, blanks
and numbers hold no others, so a character outside ASCII belongs to none of them.
-/

namespace LuaLex.CharClass

/-- A name begins with an ASCII letter or an underscore. -/
def isIdentStart (c : Char) : Bool :=
  c == '_' || c.isAlpha

/-- A name goes on with ASCII letters, ASCII digits and underscores. -/
def isIdentContinue (c : Char) : Bool :=
  isIdentStart c || c.isDigit

/-- Blanks separate tokens inside a line: space, tab, vertical tab and form feed. -/
def isBlank (c : Char) : Bool :=
  c == ' ' || c == '\t' || c == '\x0b' || c == '\x0c'

/-- A number goes on with digits, a point, and the letters `e` and `x` in lower case. -/
def isNumberChar (c : Char) : Bool :=
  c.isDigit || c == '.' || c == 'e' || c == 'x'

/-- A number is well formed only in front of a semicolon, a space, a tab, a line break character or
the end of input. -/
def endsNumber : Option Char → Bool
  | none => true
  | some c => c == ';' || c == ' ' || c == '\t' || c == '\n' || c == '\r'

/-- A string begins with a single or a double quote. -/
def isQuote (c : Char) : Bool :=
  c == '"' || c == '\''

/-- A line break character; which of them break a line depends on their neighbours. -/
def isLineEnd (c : Char) : Bool :=
  c == '\n' || c == '\r'

theorem isIdentContinue_of_isIdentStart {c : Char} (h : isIdentStart c = true) :
    isIdentContinue c = true := by
  simp [isIdentContinue, h]

theorem isNumberChar_of_isDigit {c : Char} (h : c.isDigit = true) : isNumberChar c = true := by
  simp [isNumberChar, h]

end LuaLex.CharClass
