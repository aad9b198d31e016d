import LuaLex.Lexer

/-!
# Programs that only read

Between the beginning and the end of a span a scanner does three things: it looks ahead, it takes
characters, and it looks at the text taken so far. `Reading` says so of a program. All scanners of
lexemes and trivia are such programs, so what the three operations keep, every scanner keeps; a
proof about all of them is one induction over `Reading` and not one proof for each. `Reading k` also
says how far the program looks: at most `k` characters behind the one under the cursor.

* `reading_lexemeOf`, `reading_eat`: the scanners of lexemes look at the character under the cursor
  only.
* `reading_triviaText`: the scanners of trivia look one character further.
-/

namespace LuaLex.Scan

/-! ## Sequencing -/

section Sequencing

variable {α β : Type} {m : Scan α} {f : α → Scan β} {c c' : Cursor}

theorem bind_ok {a : α} (h : m c = .ok a c') : (m >>= f) c = f a c' := by
  show EStateM.bind m f c = _
  rw [EStateM.bind, h]

theorem bind_error {e : Fault} (h : m c = .error e c') : (m >>= f) c = .error e c' := by
  show EStateM.bind m f c = _
  rw [EStateM.bind, h]

end Sequencing

/-! ## The programs -/

/-- A program made of looking ahead, by at most `k` characters behind the one under the cursor, of
taking characters and of looking at the text taken so far. -/
inductive Reading (k : Nat) : {α : Type} → Scan α → Prop where
  | pure {α : Type} (a : α) : Reading k (Pure.pure a)
  | bind {α β : Type} {m : Scan α} {f : α → Scan β} :
      Reading k m → (∀ a, Reading k (f a)) → Reading k (m >>= f)
  | peek (i : Nat) (h : i ≤ k) : Reading k (Scan.peek i)
  | advance : Reading k Scan.advance
  /-- Of the cursor only the text taken so far is looked at. -/
  | withText {α : Type} {f : Cursor → Scan α} :
      (∀ c d, c.text = d.text → f c = f d) → (∀ c, Reading k (f c)) →
        Reading k ((get : Scan Cursor) >>= f)
  | loop {α β : Type} {body : β → Scan (Round β α)} {progress : Progress body} (b : β) :
      (∀ b, Reading k (body b)) → Reading k (loop body progress b)

variable {k : Nat}

namespace Reading

theorem ite {α : Type} {p : Prop} [Decidable p] {m n : Scan α} (hm : Reading k m)
    (hn : Reading k n) : Reading k (if p then m else n) := by
  split <;> assumption

theorem current : Reading k current := .peek 0 (Nat.zero_le k)

end Reading

theorem reading_eat (expected : Char) : Reading k (eat expected) :=
  .bind .current fun _ => .ite (.bind .advance fun _ => .pure _) (.pure _)

theorem reading_eatRound (p : Char → Bool) (count : Nat) : Reading k (eatRound p count) :=
  .bind .current fun o => by
    cases o with
    | none => exact .pure _
    | some c => exact .ite (.bind .advance fun _ => .pure _) (.pure _)

theorem reading_eatWhile (p : Char → Bool) : Reading k (eatWhile p) :=
  .loop 0 (reading_eatRound p)

end LuaLex.Scan

namespace LuaLex

open Scan

namespace LongBracket

variable {k : Nat}

theorem reading_opening : Reading k opening :=
  .bind (reading_eatWhile _) fun _ => .bind (reading_eat '[') fun _ => .ite (.pure _) (.pure _)

theorem reading_closing (level : Nat) : Reading k (closing level) :=
  .loop () fun _ => .bind .advance fun o => by
    cases o with
    | none => exact .pure _
    | some c =>
      exact .ite
        (.bind (reading_eatWhile _) fun _ =>
          .ite (.bind (reading_eat ']') fun _ => .ite (.pure _) (.pure _)) (.pure _))
        (.pure _)

end LongBracket

namespace Lexer

/-! ## Scanners of lexemes -/

theorem reading_name : Reading 0 name :=
  .bind (reading_eatWhile _) fun _ =>
    .withText (fun c d h => by rw [h]) fun _ => .ite (.pure _) (.pure _)

theorem reading_number : Reading 0 number :=
  .bind (reading_eatWhile _) fun _ => .bind .current fun _ => .ite (.pure _) (.pure _)

theorem reading_quotedBody (quote : Char) : Reading 0 (quotedBody quote) :=
  .loop () fun _ => .bind .advance fun o => by
    cases o with
    | none => exact .pure _
    | some c => exact .ite (.bind .advance fun _ => .pure _) (.ite (.pure _) (.pure _))

theorem reading_bracketBody : Reading 0 bracketBody :=
  .bind .current fun _ => .ite
    (.bind LongBracket.reading_opening fun o => by
      cases o with
      | none => exact .pure _
      | some level =>
        exact .bind (LongBracket.reading_closing level) fun _ => .ite (.pure _) (.pure _))
    (.pure _)

theorem reading_secondOf (first : Char) (next : Option Char) : Reading 0 (secondOf first next) := by
  cases next with
  | none => exact .pure _
  | some next => exact .ite (.bind .advance fun _ => .pure _) (.pure _)

theorem reading_symbolBody (first : Char) : Reading 0 (symbolBody first) := by
  refine .bind .current fun _ => .bind (reading_secondOf first _) fun _ => .withText ?_ ?_
  · intro c d h
    rw [h]
  · intro c
    cases Symbol.kind? c.text with
    | none => exact .pure _
    | some kind => exact .pure _

/-- The scanner of a lexeme only reads, whatever the lexeme begins with. -/
theorem reading_lexemeOf (c : Char) : Reading 0 (lexemeOf c) :=
  .ite reading_name <| .ite reading_number <|
    .ite (.bind .advance fun _ => reading_quotedBody c) <|
    .ite (.bind .advance fun _ => reading_bracketBody) <|
    .bind .advance fun _ => reading_symbolBody c

theorem reading_lexeme : Reading 0 lexeme :=
  .bind .current fun o => by
    cases o with
    | none => exact .pure _
    | some c => exact reading_lexemeOf c

/-! ## Scanners of trivia -/

theorem reading_opensLong : Reading 1 opensLong :=
  .bind .current fun _ => .ite (.bind (.peek 1 (Nat.le_refl 1)) fun _ => .pure _) (.pure _)

theorem reading_restOfLine : Reading 1 restOfLine :=
  .bind (reading_eatWhile _) fun _ => .pure _

theorem reading_commentBody : Reading 1 commentBody := by
  refine .bind reading_opensLong fun _ =>
    .ite (.bind .advance fun _ => .bind LongBracket.reading_opening fun o => ?_)
      reading_restOfLine
  cases o with
  | none => exact reading_restOfLine
  | some level =>
    exact .bind (LongBracket.reading_closing level) fun _ => .ite (.pure _) (.pure _)

theorem reading_comment : Reading 1 comment :=
  .bind .advance fun _ => .bind .advance fun _ => reading_commentBody

/-- The scanner of a piece of trivia only reads. -/
theorem reading_triviaText : Reading 1 triviaText := by
  refine .bind .current fun o => ?_
  cases o with
  | none => exact .pure _
  | some c =>
    exact .ite (.bind (reading_eatWhile _) fun _ => .pure _) <|
      .ite (.bind .advance fun _ => .pure _) <|
      .ite (.bind .advance fun _ => .bind (reading_eat _) fun _ => .pure _) <|
      .ite
        (.bind (.peek 1 (Nat.le_refl 1)) fun _ =>
          .ite (.bind reading_comment fun _ => .pure _) (.pure _))
        (.pure _)

end Lexer

end LuaLex
