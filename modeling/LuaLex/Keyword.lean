/-!
# Reserved words

The reserved words of Lua, in rising order, and the search for a word among them. The order on
strings goes by code point, which is also the order of their UTF-8 bytes.
-/

namespace LuaLex.Keyword

/-- The reserved words in rising order. -/
def table : Array String := #[
  "and", "break", "do", "else", "elseif", "end", "false", "for", "function", "goto", "if",
  "in", "local", "nil", "not", "or", "repeat", "return", "then", "true", "until", "while"]

/-- Looks for `word` among the entries from `lo` up to but not including `hi`, halving the range in
each step. -/
def search (entries : Array String) (word : String) (lo hi : Nat) : Bool :=
  if lo < hi then
    let middle := lo + (hi - lo) / 2
    match entries[middle]? with
    | none => false
    | some entry =>
      if entry = word then true
      else if entry < word then search entries word (middle + 1) hi
      else search entries word lo middle
  else false
termination_by hi - lo

/-- Whether a word is reserved. -/
def isKeyword (word : String) : Bool :=
  search table word 0 table.size

end LuaLex.Keyword
