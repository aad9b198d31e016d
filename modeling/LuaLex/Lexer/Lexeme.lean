import LuaLex.CharClass
import LuaLex.Keyword
import LuaLex.LongBracket
import LuaLex.Symbol

/-!
# Scanning lexemes

The lexeme of one token, by the character it begins with. Malformed text is taken as well; its
category is `unknown` and it carries a defect.
-/

namespace LuaLex.Lexer

open Scan

/-- The category of a lexeme, with the defect of one that is malformed. -/
abbrev Verdict := TokenKind × Option Defect

/-- The verdict on a well-formed lexeme. -/
def Verdict.accepted (kind : TokenKind) : Verdict := (kind, none)

/-- The verdict on a malformed lexeme. -/
def Verdict.malformed (defect : Defect) : Verdict := (.unknown, some defect)

/-- Takes a name and tells whether it is reserved. -/
def name : Scan Verdict := do
  let _ ← eatWhile CharClass.isIdentContinue
  if Keyword.isKeyword (← get).text then return .accepted .keyword
  else return .accepted .identifier

/-- Takes a number; what follows it decides whether it is well formed. -/
def number : Scan Verdict := do
  let _ ← eatWhile CharClass.isNumberChar
  if CharClass.endsNumber (← current) then return .accepted .number
  else return .malformed .invalidNumberTerminator

/-- One round of `quotedBody`: takes a character, and behind a backslash another one. -/
def quotedRound (quote : Char) : Unit → Scan (Round Unit Verdict) := fun _ => do
  match ← advance with
  | none => return .stop (.malformed .unterminatedString)
  | some c =>
    if c = '\\' then
      let _ ← advance
      return .again ()
    else if c = quote then return .stop (.accepted .string)
    else return .again ()

theorem progress_quotedRound (quote : Char) : Progress (quotedRound quote) :=
  .of_advance fun _ _ =>
    .ite (.bind shrinks_advance fun _ => .pure _) (.ite (.pure _) (.pure _))

/-- Takes the text of a string behind its opening quote, up to the first quote of the same kind that
no backslash protects. -/
def quotedBody (quote : Char) : Scan Verdict :=
  loop (quotedRound quote) (progress_quotedRound quote) ()

/-- Takes a string in quotes. -/
def quoted (quote : Char) : Scan Verdict := do
  let _ ← advance
  quotedBody quote

/-- Takes what stands behind an opening bracket: the rest of a long string, the equals signs of a
malformed long bracket, or nothing. -/
def bracketBody : Scan Verdict := do
  let second ← current
  if second = some '[' ∨ second = some '=' then
    match ← LongBracket.opening with
    | none => return .malformed .invalidLongBracket
    | some level =>
      if ← LongBracket.closing level then return .accepted .string
      else return .malformed .unterminatedLongString
  else return .accepted .bracketOpen

/-- Takes what begins with an opening bracket: a long string, a malformed long bracket, or the
bracket alone. -/
def bracket : Scan Verdict := do
  let _ ← advance
  bracketBody

/-- Takes the second character of a symbol that begins with `first`, if `next` goes on with it. -/
def secondOf (first : Char) : Option Char → Scan Unit
  | none => return ()
  | some next => do
    if Symbol.continues first next then
      let _ ← advance

/-- Takes what stands behind the first character of a symbol and judges the whole. -/
def symbolBody (first : Char) : Scan Verdict := do
  secondOf first (← current)
  match Symbol.kind? (← get).text with
  | some kind => return .accepted kind
  | none => return .malformed .unknownSymbol

/-- Takes a symbol that begins with `first`, or that character alone if no symbol does. -/
def symbol (first : Char) : Scan Verdict := do
  let _ ← advance
  symbolBody first

/-- Takes the lexeme that begins with `c`, the character under the cursor. -/
def lexemeOf (c : Char) : Scan Verdict :=
  if CharClass.isIdentStart c then name
  else if c.isDigit then number
  else if CharClass.isQuote c then quoted c
  else if c = '[' then bracket
  else symbol c

/-- Takes the lexeme under the cursor; at the end of input it is empty. -/
def lexeme : Scan Verdict := do
  match ← current with
  | none => return .accepted .endOfInput
  | some c => lexemeOf c

/-! ## What is left to read -/

theorem shrinks_name : Shrinks name :=
  .bind (shrinks_eatWhile _) fun _ => .bind .get fun _ => .ite (.pure _) (.pure _)

theorem shrinks_number : Shrinks number :=
  .bind (shrinks_eatWhile _) fun _ => .bind shrinks_current fun _ => .ite (.pure _) (.pure _)

theorem shrinks_quotedBody (quote : Char) : Shrinks (quotedBody quote) :=
  shrinks_loop (fun _ => .bind shrinks_advance fun o => by
    cases o with
    | none => exact .pure _
    | some c => exact .ite (.bind shrinks_advance fun _ => .pure _) (.ite (.pure _) (.pure _))) ()

theorem shrinks_bracketBody : Shrinks bracketBody :=
  .bind shrinks_current fun _ => .ite
    (.bind LongBracket.shrinks_opening fun o => by
      cases o with
      | none => exact .pure _
      | some level =>
        exact .bind (LongBracket.shrinks_closing level) fun _ => .ite (.pure _) (.pure _))
    (.pure _)

theorem shrinks_secondOf (first : Char) (next : Option Char) : Shrinks (secondOf first next) := by
  cases next with
  | none => exact .pure _
  | some next => exact .ite (.bind shrinks_advance fun _ => .pure _) (.pure _)

theorem shrinks_symbolBody (first : Char) : Shrinks (symbolBody first) :=
  .bind shrinks_current fun _ => .bind (shrinks_secondOf first _) fun _ => .bind .get fun c => by
    cases Symbol.kind? c.text with
    | none => exact .pure _
    | some kind => exact .pure _

theorem shrinks_lexemeOf (c : Char) : Shrinks (lexemeOf c) :=
  .ite shrinks_name <| .ite shrinks_number <|
    .ite (.bind shrinks_advance fun _ => shrinks_quotedBody c) <|
    .ite (.bind shrinks_advance fun _ => shrinks_bracketBody) <|
    .bind shrinks_advance fun _ => shrinks_symbolBody c

theorem shrinks_lexeme : Shrinks lexeme :=
  .bind shrinks_current fun o => by
    cases o with
    | none => exact .pure _
    | some c => exact shrinks_lexemeOf c

/-- A lexeme takes at least the character it begins with. -/
theorem takesAt_lexemeOf {x : Char} {c : Cursor} (hs : Sees x c) : TakesAt c (lexemeOf x) := by
  unfold lexemeOf
  split
  · rename_i h
    exact (TakesAt.eatWhile hs (CharClass.isIdentContinue_of_isIdentStart h)).bind fun _ =>
      .bind .get fun _ => .ite (.pure _) (.pure _)
  split
  · rename_i _ h
    exact (TakesAt.eatWhile hs (CharClass.isNumberChar_of_isDigit h)).bind fun _ =>
      .bind shrinks_current fun _ => .ite (.pure _) (.pure _)
  split
  · exact (TakesAt.advance hs).bind fun _ => shrinks_quotedBody x
  split
  · exact (TakesAt.advance hs).bind fun _ => shrinks_bracketBody
  · exact (TakesAt.advance hs).bind fun _ => shrinks_symbolBody x

/-- A lexeme that does not stand for the end of input takes something. -/
theorem takesWhen_lexeme (c : Cursor) : TakesWhen (·.1 ≠ .endOfInput) c lexeme :=
  .bind_current (fun _ => .pure (by simp [Verdict.accepted]))
    fun _ _ hs => .of_takesAt (takesAt_lexemeOf hs)

end LuaLex.Lexer
