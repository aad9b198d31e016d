import LuaLex.Toml.Reader
import LuaLex.Toml.Scalar

/-!
# TOML strings

Strings in single quotes stand for themselves, strings in double quotes know escapes, and both may
span lines when their quote is written three times.
-/

namespace LuaLex.Toml

open Reader

/-- Reads the code point of an escape, which has `n` hexadecimal digits. -/
def readCodePoint (n : Nat) : Reader (List Char) := do
  let text ← get
  let digits := text.take n
  if digits.length = n && digits.all isHexDigit then
    let value := digitsValue 16 digits
    if value.isValidChar then
      set (text.drop n)
      return [Char.ofNat value]
    else fail
  else fail

/-- Reads what stands behind the backslash of an escape. -/
def readEscape : Reader (List Char) := do
  match ← get with
  | [] => fail
  | c :: rest =>
    set rest
    match c with
    | 'b' => return ['\x08']
    | 't' => return ['\t']
    | 'n' => return ['\n']
    | 'f' => return ['\x0c']
    | 'r' => return ['\r']
    | '"' => return ['"']
    | '\\' => return ['\\']
    | 'u' => readCodePoint 4
    | 'U' => readCodePoint 8
    | _ => fail

/-- The characters that stand for themselves between double quotes. -/
def isPlainBasic (c : Char) : Bool := isShown c && c != '"' && c != '\\'

/-- The characters that stand for themselves between single quotes. -/
def isPlainLiteral (c : Char) : Bool := isShown c && c != '\''

/-- The next piece of a string in double quotes, `none` behind the closing quote. -/
def basicPiece : Reader (Option (List Char)) := do
  if ← takeIf ['"'] then return none
  else if ← takeIf ['\\'] then return some (← readEscape)
  else
    let plain ← takeWhile isPlainBasic
    if plain.isEmpty then fail else return some plain

/-- Reads the rest of a string behind its opening double quote. -/
def readBasic : Reader String :=
  return String.ofList (← repeated basicPiece).flatten

/-- Reads the rest of a string behind its opening single quote. -/
def readLiteral : Reader String := do
  let plain ← takeWhile isPlainLiteral
  expect ['\'']
  return String.ofList plain

/-- Takes the end of a string over several lines, if it is there: three quotes, in front of which
one or two more belong to the string. The answer is how many those are. -/
def closingQuotes (quote : Char) : Reader (Option Nat) := do
  let run := (← get).takeWhile (· == quote)
  if 3 ≤ run.length then
    let extra := min (run.length - 3) 2
    expect (List.replicate (extra + 3) quote)
    return some extra
  else return none

/-- Takes a backslash at the end of a line, if it is there, with all blanks and line breaks behind
it. -/
def continuation : Reader Bool := do
  match ← get with
  | '\\' :: rest =>
    match rest.dropWhile isBlank with
    | '\n' :: _ | '\r' :: '\n' :: _ =>
      set rest
      let _ ← repeated do
        let text ← get
        blanks
        let _ ← lineBreak
        if (← get).length < text.length then return some () else return none
      return true
    | _ => return false
  | _ => return false

/-- The next piece of a string over several lines, `none` in front of the closing quotes. -/
def piece (quote : Char) (escapes : Bool) : Reader (Option (List Char)) := do
  let text ← get
  if [quote, quote, quote].isPrefixOf text then return none
  else if ← takeIf [quote] then return some [quote]
  else if ← lineBreak then return some ['\n']
  else if escapes then
    if ← continuation then return some []
    else if ← takeIf ['\\'] then return some (← readEscape)
    else
      let plain ← takeWhile isPlainBasic
      if plain.isEmpty then fail else return some plain
  else
    let plain ← takeWhile isPlainLiteral
    if plain.isEmpty then fail else return some plain

/-- Reads the rest of a string over several lines behind its opening quotes. A line break right
behind them does not belong to it. -/
def readLines (quote : Char) (escapes : Bool) : Reader String := do
  let _ ← lineBreak
  let pieces ← repeated (piece quote escapes)
  match ← closingQuotes quote with
  | none => fail
  | some extra => return String.ofList (pieces.flatten ++ List.replicate extra quote)

/-- Reads a string, if one begins here. -/
def readString : Reader (Option String) := do
  if ← takeIf ['"', '"', '"'] then return some (← readLines '"' true)
  else if ← takeIf ['"'] then return some (← readBasic)
  else if ← takeIf ['\'', '\'', '\''] then return some (← readLines '\'' false)
  else if ← takeIf ['\''] then return some (← readLiteral)
  else return none

end LuaLex.Toml
