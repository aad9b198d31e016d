/-!
# Reading TOML text

The pieces that the grammar of TOML is written in: programs that take characters from the front of a
text or fail. `repeated` is their only loop; it ends by itself when a round takes nothing.
-/

namespace LuaLex.Toml

/-- Why a text is no TOML document. -/
inductive Error where
  /-- The text does not follow the grammar; `left` characters were left when that showed. -/
  | malformed (left : Nat)
  /-- Arrays and inline tables are nested too deep, or a key has too many parts. -/
  | tooDeep
  /-- A key is defined twice, or a table is opened twice. -/
  | duplicateKey (key : String)
  /-- A key names something that is not a table and is used as one. -/
  | notATable (key : String)
  deriving Repr, DecidableEq

/-- A program that takes characters from the front of a text. -/
abbrev Reader := StateT (List Char) (Except Error)

namespace Reader

/-- The text does not follow the grammar here. -/
def fail {α : Type} : Reader α := fun text => .error (.malformed text.length)

/-- Fails with a reason of its own. -/
def refuse {α : Type} (e : Error) : Reader α := fun _ => .error e

/-- The next character, which is not taken. -/
def peek : Reader (Option Char) := return (← get).head?

/-- Takes characters while `p` holds of them. -/
def takeWhile (p : Char → Bool) : Reader (List Char) :=
  modifyGet fun text => text.span p

/-- Takes `word` if the text begins with it. -/
def takeIf (word : List Char) : Reader Bool := do
  let text ← get
  if word.isPrefixOf text then
    set (text.drop word.length)
    return true
  else return false

/-- Takes `word`, which has to be there. -/
def expect (word : List Char) : Reader Unit := do
  unless ← takeIf word do fail

/-- Repeats `round` until it answers `none` or takes nothing. -/
def iterate {β : Type} (round : β → Reader (Option β)) (b : β) : Reader β := fun text =>
  match round b text with
  | .error e => .error e
  | .ok (none, rest) => .ok (b, rest)
  | .ok (some b', rest) =>
    if rest.length < text.length then iterate round b' rest else .ok (b', rest)
termination_by text => text.length

/-- The answers of as many rounds as there are before one answers `none` or takes nothing. -/
def repeated {α : Type} (round : Reader (Option α)) : Reader (List α) :=
  return (← iterate (fun found => return (← round).map found.push) (#[] : Array α)).toList

/-! ## Blanks, line breaks and comments -/

/-- Blanks are spaces and tabs. -/
def isBlank (c : Char) : Bool := c == ' ' || c == '\t'

/-- The characters that comments and strings may hold as they stand: tabs and everything from space
on but the delete character. -/
def isShown (c : Char) : Bool := c == '\t' || (' ' ≤ c && c != '\x7f')

/-- Takes blanks. -/
def blanks : Reader Unit := do
  let _ ← takeWhile isBlank

/-- Takes a line break, if there is one: a line feed, with or without a carriage return before
it. -/
def lineBreak : Reader Bool := do
  if ← takeIf ['\n'] then return true else takeIf ['\r', '\n']

/-- Takes a comment, if there is one. -/
def comment : Reader Bool := do
  if (← peek) = some '#' then
    let _ ← takeWhile isShown
    return true
  else return false

/-- Takes the end of a line: blanks, a comment, and a line break or the end of the text. -/
def lineEnd : Reader Unit := do
  blanks
  let _ ← comment
  unless ← lineBreak do
    unless (← get).isEmpty do fail

/-- Takes blanks, line breaks and comments. -/
def filler : Reader Unit := do
  let _ ← repeated do
    let text ← get
    blanks
    let _ ← lineBreak
    let _ ← comment
    if (← get).length < text.length then return some () else return none

end Reader

end LuaLex.Toml
