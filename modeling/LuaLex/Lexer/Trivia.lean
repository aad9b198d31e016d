import LuaLex.CharClass
import LuaLex.LongBracket
import LuaLex.Token

/-!
# Scanning trivia

Trivia is split into runs of blanks, single line breaks and comments. A byte order mark counts as a
blank of its own, but only where the caller says the input begins.
-/

namespace LuaLex.Lexer

open Scan

/-- Whether the text under the cursor begins like a long bracket. -/
def opensLong : Scan Bool := do
  if (← current) = some '[' then
    let second ← peek 1
    return second == some '[' || second == some '='
  else return false

/-- Takes the rest of the line. -/
def restOfLine : Scan (Option Defect) := do
  let _ ← eatWhile fun c => !CharClass.isLineEnd c
  return none

/-- Takes the text of a comment behind its two hyphens. A long bracket makes it reach to the closing
bracket of the same level; otherwise it ends in front of the next line break character. -/
def commentBody : Scan (Option Defect) := do
  if ← opensLong then
    let _ ← advance
    match ← LongBracket.opening with
    | some level =>
      if ← LongBracket.closing level then return none
      else return some .unterminatedLongComment
    | none => restOfLine
  else restOfLine

/-- Takes the comment that begins under the cursor. -/
def comment : Scan (Option Defect) := do
  let _ ← advance
  let _ ← advance
  commentBody

/-- Takes the text of the next piece of trivia, if trivia begins under the cursor. -/
def triviaText : Scan (Option (TriviaKind × Option Defect)) := do
  match ← current with
  | none => return none
  | some c =>
    if CharClass.isBlank c then
      let _ ← eatWhile CharClass.isBlank
      return some (.whitespace, none)
    else if c = '\n' then
      let _ ← advance
      return some (.newline, none)
    else if c = '\r' then
      let _ ← advance
      let _ ← eat '\n'
      return some (.newline, none)
    else if c = '-' then
      if (← peek 1) = some '-' then
        let defect ← comment
        return some (.comment, defect)
      else return none
    else return none

/-- Ends the span under construction as a piece of trivia. -/
def finishTrivia (kind : TriviaKind) (defect : Option Defect) : Scan Trivia := do
  let (text, span) ← finish
  return ⟨kind, text, span, defect⟩

/-- Takes the byte order mark, if it is under the cursor. -/
def byteOrderMark : Scan (List Trivia) := do
  begin
  if ← eat '\ufeff' then return [← finishTrivia .whitespace none] else return []

/-- One round of `trivia`: adds the next piece to those found before. -/
def triviaRound (found : Array Trivia) : Scan (Round (Array Trivia) (Array Trivia)) := do
  begin
  match ← triviaText with
  | none => return .stop found
  | some (kind, defect) => return .again (found.push (← finishTrivia kind defect))

theorem shrinks_opensLong : Shrinks opensLong :=
  .bind shrinks_current fun _ => .ite (.bind (shrinks_peek 1) fun _ => .pure _) (.pure _)

theorem shrinks_restOfLine : Shrinks restOfLine :=
  .bind (shrinks_eatWhile _) fun _ => .pure _

theorem shrinks_commentBody : Shrinks commentBody := by
  refine .bind shrinks_opensLong fun _ =>
    .ite (.bind shrinks_advance fun _ => .bind LongBracket.shrinks_opening fun o => ?_)
      shrinks_restOfLine
  cases o with
  | none => exact shrinks_restOfLine
  | some level =>
    exact .bind (LongBracket.shrinks_closing level) fun _ => .ite (.pure _) (.pure _)

theorem shrinks_comment : Shrinks comment :=
  .bind shrinks_advance fun _ => .bind shrinks_advance fun _ => shrinks_commentBody

/-- A comment takes at least the character it begins with. -/
theorem takesAt_comment {x : Char} {c : Cursor} (hs : Sees x c) : TakesAt c comment :=
  (TakesAt.advance hs).bind fun _ => .bind shrinks_advance fun _ => shrinks_commentBody

theorem shrinks_finishTrivia (kind : TriviaKind) (defect : Option Defect) :
    Shrinks (finishTrivia kind defect) :=
  .bind shrinks_finish fun _ => .pure _

theorem shrinks_byteOrderMark : Shrinks byteOrderMark :=
  .bind shrinks_begin fun _ => .bind (shrinks_eat _) fun _ =>
    .ite (.bind (shrinks_finishTrivia _ _) fun _ => .pure _) (.pure _)

theorem shrinks_triviaText : Shrinks triviaText := by
  refine .bind shrinks_current fun o => ?_
  cases o with
  | none => exact .pure _
  | some c =>
    exact .ite (.bind (shrinks_eatWhile _) fun _ => .pure _) <|
      .ite (.bind shrinks_advance fun _ => .pure _) <|
      .ite (.bind shrinks_advance fun _ => .bind (shrinks_eat _) fun _ => .pure _) <|
      .ite
        (.bind (shrinks_peek 1) fun _ => .ite (.bind shrinks_comment fun _ => .pure _) (.pure _))
        (.pure _)

/-- Every piece of trivia takes something. -/
theorem takesWhen_triviaText (c : Cursor) : TakesWhen (·.isSome) c triviaText :=
  .bind_current (fun _ => .pure (by simp)) fun x c' hs =>
    .ite (fun h => .of_takesAt ((TakesAt.eatWhile hs h).bind fun _ => .pure _)) fun _ =>
    .ite (fun _ => .of_takesAt ((TakesAt.advance hs).bind fun _ => .pure _)) fun _ =>
    .ite
      (fun _ => .of_takesAt
        ((TakesAt.advance hs).bind fun _ => .bind (shrinks_eat _) fun _ => .pure _)) fun _ =>
    .ite
      (fun _ => .bind (shrinks_peek 1) fun o c'' e =>
        .ite (fun _ => .of_takesAt ((takesAt_comment (hs.of_peek e)).bind fun _ => .pure _))
          fun _ => .pure (by simp))
      fun _ => .pure (by simp)

theorem progress_triviaRound : Progress triviaRound :=
  .of_takesWhen fun found c =>
    .bind shrinks_begin fun _ c' _ =>
      .bind_or shrinks_triviaText (takesWhen_triviaText c')
        (fun o _ => by
          cases o with
          | none => exact .pure _
          | some r => exact .bind (shrinks_finishTrivia _ _) fun _ => .pure _)
        fun o c'' ho => by
          cases o with
          | none => exact .pure (by simp)
          | some r => simp at ho

/-- Takes all trivia in front of the next token. -/
def trivia : Scan (List Trivia) := do
  return (← loop triviaRound progress_triviaRound #[]).toList

theorem shrinks_trivia : Shrinks trivia :=
  .bind (shrinks_loop (fun _ => .bind shrinks_begin fun _ => .bind shrinks_triviaText fun o => by
    cases o with
    | none => exact .pure _
    | some r => exact .bind (shrinks_finishTrivia _ _) fun _ => .pure _) _) fun _ => .pure _

end LuaLex.Lexer
