import LuaLex.Scan.Progress

/-!
# Long brackets

A long bracket of level `n` opens with `[`, `n` equals signs and `[`, and closes with `]`, `n`
equals signs and `]`. Strings and comments share them.
-/

namespace LuaLex.LongBracket

open Scan

/-- Counts the equals signs under the cursor and takes the second bracket behind them. The answer is
the level, or `none` if there is no second bracket; the equals signs are taken in both cases. -/
def opening : Scan (Option Nat) := do
  let level ← eatWhile (· == '=')
  if ← eat '[' then return some level else return none

/-- One round of `closing`: takes a character and, behind a bracket, the equals signs; a second
bracket behind the right number of them closes. -/
def closingRound (level : Nat) : Unit → Scan (Round Unit Bool) := fun _ => do
  match ← advance with
  | none => return .stop false
  | some c =>
    if c = ']' then
      let count ← eatWhile (· == '=')
      if count = level then
        if ← eat ']' then return .stop true else return .again ()
      else return .again ()
    else return .again ()

theorem progress_closingRound (level : Nat) : Progress (closingRound level) :=
  .of_advance fun _ _ =>
    .ite
      (.bind (shrinks_eatWhile _) fun _ =>
        .ite (.bind (shrinks_eat ']') fun _ => .ite (.pure _) (.pure _)) (.pure _))
      (.pure _)

/-- Takes everything up to the first closing bracket of the given level and that bracket itself, or
all that is left if there is none. The answer says whether there was one. -/
def closing (level : Nat) : Scan Bool :=
  loop (closingRound level) (progress_closingRound level) ()

theorem shrinks_opening : Shrinks opening :=
  .bind (shrinks_eatWhile _) fun _ => .bind (shrinks_eat '[') fun _ => .ite (.pure _) (.pure _)

theorem shrinks_closing (level : Nat) : Shrinks (closing level) :=
  shrinks_loop (fun _ => .bind shrinks_advance fun o => by
    cases o with
    | none => exact .pure _
    | some c =>
      exact .ite
        (.bind (shrinks_eatWhile _) fun _ =>
          .ite (.bind (shrinks_eat ']') fun _ => .ite (.pure _) (.pure _)) (.pure _))
        (.pure _)) ()

end LuaLex.LongBracket
