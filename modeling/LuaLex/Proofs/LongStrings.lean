import LuaLex.Proofs.LongBrackets
import LuaLex.Proofs.Lexing

/-!
# Long strings

A long string is what stands between an opening bracket and the leftmost closing bracket of its
level. Whatever the text between them is, the whole is one token, as long as no closing bracket of
that level begins in it.

* `Leftmost.of_drop`: the leftmost place by trying all places before it.
* `Lexer.lexes_long_string`: a long string alone.
* `long_brackets_close_leftmost`: where long brackets close, what begins with a bracket, and which
  texts are one long string.
-/

namespace LuaLex

open Scan LongBracket Lexer

/-- A place is the leftmost one if there is none in front of it. -/
theorem Leftmost.of_drop {c body cs : List Char} (hbegins : body ++ c <+: cs)
    (hnone : ∀ k < body.length, ¬c <+: cs.drop k) : Leftmost c body cs where
  begins := hbegins
  leftmost := by
    rintro u ⟨rest, rfl⟩
    refine Nat.le_of_not_lt fun hlt => hnone u.length hlt ?_
    rw [List.append_assoc, List.drop_left]
    exact List.prefix_append c rest

namespace Lexer

/-- What begins with an opening bracket is a lexeme. -/
theorem Brackets.takes_lexeme {cs w rest : List Char} {verdict : Verdict}
    (h : Brackets ('[' :: cs) verdict w rest) : Takes lexeme [] ('[' :: cs) verdict w rest :=
  (Takes.bind_iff (.current [] ('[' :: cs))).mpr (h.takes [])

/-- No trivia begins with an opening bracket. -/
theorem startsTrivia_bracket (cs : List Char) : startsTrivia ('[' :: cs) = false := rfl

/-- **A long string alone** is one token. -/
theorem lexes_long_string {level : Nat} {body : List Char}
    (h : Leftmost (closer level) body (body ++ closer level)) :
    Lexes false (opener level ++ (body ++ closer level))
      [⟨.string, String.ofList (opener level ++ (body ++ closer level)), [], .dummy, none⟩,
        ⟨.endOfInput, "", [], .dummy, none⟩] := by
  have hleftmost : Leftmost (closer level) body (body ++ (closer level ++ [])) := by
    rwa [List.append_nil]
  have hbrackets := Brackets.string hleftmost
  rw [List.append_nil] at hbrackets
  have hlexeme := Brackets.takes_lexeme (hbrackets : Brackets ('[' :: _) _ _ _)
  have hmark : (opener level ++ (body ++ closer level)).head? ≠ some '\uFEFF' := by
    simp [opener]
  have hstring := LexesToken.mk (.absent hmark) (.stop (startsTrivia_bracket _)) hlexeme
  exact .more hstring rfl (.last lexesToken_nil rfl)

end Lexer

/-- **Long brackets close at the leftmost closing bracket** of their level, or nowhere; what begins
with a bracket is exactly a long string up to there, an unclosed one with all that is left, equals
signs that no second bracket follows, or the bracket alone; and a text between long brackets of a
level is one string if the closing one is the first of that level to begin behind the opening
one. -/
theorem long_brackets_close_leftmost :
    (∀ level v cs, Closes level v cs) ∧
      (∀ cs, ∃ verdict w rest, Brackets ('[' :: cs) verdict w rest) ∧
      (∀ v cs verdict w rest,
        Takes bracket v ('[' :: cs) verdict w rest ↔ Brackets ('[' :: cs) verdict w rest) ∧
      ∀ level body s, Leftmost (closer level) body (body ++ closer level) →
        s = String.ofList (opener level ++ (body ++ closer level)) →
        ∃ ending, ending.isEndOfInput = true ∧ ending.leadingTrivia = [] ∧
          tokenize s = .ok [⟨.string, s, [], ⟨0, s.utf8ByteSize, 1, 1⟩, none⟩, ending] := by
  refine ⟨closing_cases, exists_brackets, ?_, ?_⟩
  · intro v cs verdict w rest
    exact ⟨brackets_of_takes, fun h => h.takes v⟩
  · rintro level body s hleftmost rfl
    have hlexes := lexes_long_string hleftmost
    rw [← String.toList_ofList (l := opener level ++ (body ++ closer level)),
      String.ofList_toList] at hlexes
    have htokens := tokenize_of_lexes hlexes
    rw [layOutTokens_cons, layOutTokens_cons, Token.placed_alone] at htokens
    exact ⟨_, rfl, rfl, htokens⟩

/-- What begins like a closing bracket of level two does not hide the one it runs into. -/
theorem long_brackets_close_behind_part :
    Leftmost (closer 2) [']', '='] ([']', '='] ++ closer 2) ∧
      ∃ ending, ending.isEndOfInput = true ∧ ending.leadingTrivia = [] ∧
        tokenize "[==[]=]==]" = .ok [⟨.string, "[==[]=]==]", [], ⟨0, 10, 1, 1⟩, none⟩, ending] := by
  have hleftmost : Leftmost (closer 2) [']', '='] ([']', '='] ++ closer 2) :=
    .of_drop (by decide) (by decide)
  exact ⟨hleftmost, long_brackets_close_leftmost.2.2.2 2 _ "[==[]=]==]" hleftmost (by decide)⟩

end LuaLex
