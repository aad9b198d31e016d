import LuaLex.Proofs.Comments

/-!
# The pieces of trivia

Trivia is taken piece by piece: a run of blanks as a whole, each line break on its own, and a
comment as far as it reaches. A carriage return is taken together with the line feed behind it.

* `Lexer.Pieces`: the next piece of trivia, of which kind it is, its defect, and what is left.
* `Lexer.pieces_of_takes`, `Lexer.exists_pieces`: the scanner of trivia takes these pieces, and
  finds one wherever trivia begins.
-/

namespace LuaLex.Lexer

open Scan

/-- What is taken of a text as the next piece of trivia, of which kind, with which defect, and what
is left. -/
inductive Pieces : List Char → TriviaKind → Option Defect → List Char → List Char → Prop
  /-- A run of blanks goes on as long as there are any. -/
  | blanks {c : Char} {w rest : List Char} : (∀ x ∈ c :: w, CharClass.isBlank x = true) →
      (∀ x, rest.head? = some x → CharClass.isBlank x = false) →
        Pieces (c :: w ++ rest) .whitespace none (c :: w) rest
  | feed {cs : List Char} : Pieces ('\n' :: cs) .newline none ['\n'] cs
  | lone {cs : List Char} : cs.head? ≠ some '\n' → Pieces ('\r' :: cs) .newline none ['\r'] cs
  | pair {cs : List Char} : Pieces ('\r' :: '\n' :: cs) .newline none ['\r', '\n'] cs
  | comment {cs w rest : List Char} {defect : Option Defect} : Comments cs defect w rest →
      Pieces ('-' :: '-' :: cs) .comment defect ('-' :: '-' :: w) rest

section Pieces

variable {c : Char} {cs w rest : List Char} {kind : TriviaKind} {defect : Option Defect}

theorem takes_triviaText_blanks (hw : ∀ x ∈ c :: w, CharClass.isBlank x = true)
    (hrest : ∀ x, rest.head? = some x → CharClass.isBlank x = false) :
    Takes triviaText [] (c :: w ++ rest) (some (.whitespace, none)) (c :: w) rest := by
  refine (Takes.bind_iff (.current [] (c :: w ++ rest))).mpr ?_
  simp only [List.cons_append, List.head?_cons, if_pos (hw c List.mem_cons_self)]
  exact (takes_run hw hrest []).bind_still (.pure _ _ _)

theorem takes_triviaText_feed :
    Takes triviaText [] ('\n' :: cs) (some (.newline, none)) ['\n'] cs := by
  refine (Takes.bind_iff (.current [] ('\n' :: cs))).mpr ?_
  simp only [List.head?_cons]
  rw [if_neg (by decide), if_pos trivial]
  exact (Takes.advance_cons [] '\n' cs).bind_still (.pure _ _ _)

/-- A carriage return is taken with the line feed behind it, if there is one. -/
theorem takes_triviaText_return {fed : Bool} (h : Takes (eat '\n') ['\r'] cs fed w rest) :
    Takes triviaText [] ('\r' :: cs) (some (.newline, none)) ('\r' :: w) rest := by
  refine (Takes.bind_iff (.current [] ('\r' :: cs))).mpr ?_
  simp only [List.head?_cons]
  rw [if_neg (by decide), if_neg (by decide), if_pos trivial]
  exact (Takes.advance_cons [] '\r' cs).bind (h.bind_still (.pure _ _ _))

/-- **The next piece of trivia** is taken so. -/
theorem Pieces.takes (h : Pieces cs kind defect w rest) :
    Takes triviaText [] cs (some (kind, defect)) w rest := by
  cases h with
  | blanks hw hrest => exact takes_triviaText_blanks hw hrest
  | feed => exact takes_triviaText_feed
  | lone hfeed => exact takes_triviaText_return (.eat_of_ne _ hfeed)
  | pair => exact takes_triviaText_return (.eat_cons _ '\n' _)
  | comment h => exact h.takes_triviaText

/-- A run of blanks is as long as it can be. -/
theorem exists_pieces_blanks (hc : CharClass.isBlank c = true) :
    ∃ w rest, Pieces (c :: cs) .whitespace none w rest := by
  have htext : c :: cs =
      c :: cs.takeWhile CharClass.isBlank ++ cs.dropWhile CharClass.isBlank := by
    rw [List.cons_append, List.takeWhile_append_dropWhile]
  rw [htext]
  refine ⟨_, _, .blanks ?_ ?_⟩
  · exact List.forall_mem_cons.mpr
      ⟨hc, fun x hx => List.all_eq_true.mp List.all_takeWhile x hx⟩
  · intro x hx
    have hstop := List.head?_dropWhile_not CharClass.isBlank cs
    rw [hx] at hstop
    simpa using hstop

/-- **Where trivia begins, there is a piece of it.** -/
theorem exists_pieces (h : startsTrivia cs = true) :
    ∃ kind defect w rest, Pieces cs kind defect w rest := by
  cases cs with
  | nil => cases h
  | cons c cs =>
    simp only [startsTrivia, Bool.or_eq_true, CharClass.isLineEnd, Bool.and_eq_true, beq_iff_eq]
      at h
    rcases h with (hblank | rfl | rfl) | ⟨rfl, hsecond⟩
    · exact ⟨_, _, exists_pieces_blanks hblank⟩
    · exact ⟨_, _, _, _, .feed⟩
    · by_cases hfeed : cs.head? = some '\n'
      · obtain ⟨cs, rfl⟩ := List.head?_eq_some_iff.mp hfeed
        exact ⟨_, _, _, _, .pair⟩
      · exact ⟨_, _, _, _, .lone hfeed⟩
    · obtain ⟨cs, rfl⟩ := List.head?_eq_some_iff.mp hsecond
      obtain ⟨defect, w, rest, h⟩ := exists_comments cs
      exact ⟨_, _, _, _, .comment h⟩

/-- What the scanner of trivia takes is a piece of trivia. -/
theorem pieces_of_takes (h : Takes triviaText [] cs (some (kind, defect)) w rest) :
    Pieces cs kind defect w rest := by
  obtain ⟨kind', defect', w', rest', hpieces⟩ := exists_pieces (startsTrivia_of_takes h)
  obtain ⟨hverdict, rfl, rfl⟩ := h.unique hpieces.takes
  cases hverdict
  exact hpieces

/-- Of the pieces of trivia only comments have a defect. -/
theorem Pieces.hyphen_mem {d : Defect} (h : Pieces cs kind (some d) w rest) : '-' ∈ w := by
  cases h with
  | comment _ => exact List.mem_cons_self

end Pieces

end LuaLex.Lexer
