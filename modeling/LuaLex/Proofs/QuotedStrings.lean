import LuaLex.Lexer.Lexeme
import LuaLex.Proofs.OnText

/-!
# Strings in quotes

Behind its opening quote a string goes on to the first quote of the same kind that no backslash
protects. What stands in front of that quote is a sequence of units, each a character or a backslash
with the character it protects.

* `QuotedUnits q u`: the text `u` is a sequence of such units. `Unclosed q cs`: in `cs` no quote
  stands behind such a sequence.
* `takes_quotedBody`: such a text with a quote behind it is taken as a string.
* `takes_quotedBody_open`: where there is none, all that is left is taken as malformed.
* `Quotes`, `quotes_of_takes`: what is taken that begins with a quote, on every text.
-/

namespace LuaLex.Lexer

open Scan

/-- The text between two quotes `q`: characters other than the quote and the backslash, and
backslashes with the character behind each. -/
inductive QuotedUnits (q : Char) : List Char → Prop
  | nil : QuotedUnits q []
  | plain {c : Char} {u : List Char} : c ≠ '\\' → c ≠ q → QuotedUnits q u → QuotedUnits q (c :: u)
  | escaped {c : Char} {u : List Char} : QuotedUnits q u → QuotedUnits q ('\\' :: c :: u)

/-- No quote `q` behind units closes the text. -/
def Unclosed (q : Char) (cs : List Char) : Prop :=
  ∀ u rest, QuotedUnits q u → cs ≠ u ++ q :: rest

section Unclosed

variable {q c : Char} {cs : List Char}

theorem Unclosed.ne (h : Unclosed q (c :: cs)) : c ≠ q := by
  rintro rfl
  exact h [] cs .nil rfl

theorem Unclosed.of_plain (h : Unclosed q (c :: cs)) (hslash : c ≠ '\\') : Unclosed q cs := by
  rintro u rest hu rfl
  exact h _ rest (.plain hslash h.ne hu) rfl

theorem Unclosed.of_escaped (h : Unclosed q ('\\' :: c :: cs)) : Unclosed q cs := by
  rintro u rest hu rfl
  exact h _ rest (.escaped hu) rfl

end Unclosed

section Rounds

variable (q : Char) (v cs : List Char)

theorem takes_quotedRound_end :
    Takes (quotedRound q ()) v [] (.stop (.malformed .unterminatedString)) [] [] :=
  (Takes.advance_nil v).bind (.pure _ _ _)

theorem takes_quotedRound_plain {c : Char} (hslash : c ≠ '\\') (hq : c ≠ q) :
    Takes (quotedRound q ()) v (c :: cs) (.again ()) [c] cs := by
  refine (Takes.advance_cons v c cs).bind_still ?_
  simp only
  rw [if_neg hslash, if_neg hq]
  exact .pure _ _ _

theorem takes_quotedRound_escaped (c : Char) :
    Takes (quotedRound q ()) v ('\\' :: c :: cs) (.again ()) ['\\', c] cs := by
  refine (Takes.advance_cons v '\\' (c :: cs)).bind ?_
  exact (Takes.advance_cons _ c cs).bind_still (.pure _ _ _)

theorem takes_quotedRound_slash :
    Takes (quotedRound q ()) v ['\\'] (.again ()) ['\\'] [] := by
  refine (Takes.advance_cons v '\\' []).bind_still ?_
  exact (Takes.advance_nil _).bind (.pure _ _ _)

theorem takes_quotedRound_close (hq : q ≠ '\\') :
    Takes (quotedRound q ()) v (q :: cs) (.stop (.accepted .string)) [q] cs := by
  refine (Takes.advance_cons v q cs).bind_still ?_
  simp only [if_neg hq, if_true]
  exact .pure _ _ _

end Rounds

section Bodies

variable {q : Char} {v cs u w rest : List Char}

/-- **Units with a quote behind them are a string**, whatever follows. -/
theorem takes_quotedBody (hq : q ≠ '\\') (hu : QuotedUnits q u) (v rest : List Char) :
    Takes (quotedBody q) v (u ++ q :: rest) (.accepted .string) (u ++ [q]) rest := by
  induction hu generalizing v with
  | nil => exact (takes_quotedRound_close q v rest hq).loop_stop
  | plain hslash hne _ ih => exact (takes_quotedRound_plain q v _ hslash hne).loop_again (ih _)
  | escaped _ ih => exact (takes_quotedRound_escaped q v _ _).loop_again (ih _)

/-- **A string that is not closed** takes all that is left. -/
theorem takes_quotedBody_open (h : Unclosed q cs) (v : List Char) :
    Takes (quotedBody q) v cs (.malformed .unterminatedString) cs [] := by
  induction hn : cs.length using Nat.strongRecOn generalizing cs v with
  | ind n ih =>
    cases cs with
    | nil => exact (takes_quotedRound_end q v).loop_stop
    | cons c cs =>
      rw [List.length_cons] at hn
      by_cases hslash : c = '\\'
      · subst hslash
        cases cs with
        | nil =>
          exact (takes_quotedRound_slash q v).loop_again (takes_quotedRound_end q _).loop_stop
        | cons d cs =>
          rw [List.length_cons] at hn
          exact (takes_quotedRound_escaped q v cs d).loop_again
            (ih cs.length (by omega) h.of_escaped _ rfl)
      · exact (takes_quotedRound_plain q v cs hslash h.ne).loop_again
          (ih cs.length (by omega) (h.of_plain hslash) _ rfl)

end Bodies

/-- What is taken of a text that begins with the quote `q`, how it is judged, and what is left. -/
inductive Quotes (q : Char) : List Char → Verdict → List Char → List Char → Prop
  /-- A string reaches to the first quote that is not protected. -/
  | string {u rest : List Char} : QuotedUnits q u →
      Quotes q (q :: (u ++ q :: rest)) (.accepted .string) (q :: (u ++ [q])) rest
  /-- A string that is not closed reaches to the end. -/
  | unclosed {cs : List Char} : Unclosed q cs →
      Quotes q (q :: cs) (.malformed .unterminatedString) (q :: cs) []

section Quoted

variable {q : Char} {v cs w rest : List Char} {verdict : Verdict}

/-- **What begins with a quote** is taken so. -/
theorem Quotes.takes (hq : q ≠ '\\') (h : Quotes q cs verdict w rest) (v : List Char) :
    Takes (quoted q) v cs verdict w rest := by
  cases h with
  | string hu => exact (Takes.advance_cons v q _).bind (takes_quotedBody hq hu _ _)
  | unclosed hnone => exact (Takes.advance_cons v q _).bind (takes_quotedBody_open hnone _)

theorem exists_quotes (q : Char) (cs : List Char) :
    ∃ verdict w rest, Quotes q (q :: cs) verdict w rest := by
  by_cases hclosed : ∃ u rest, QuotedUnits q u ∧ cs = u ++ q :: rest
  · obtain ⟨u, rest, hu, rfl⟩ := hclosed
    exact ⟨_, _, _, .string hu⟩
  · exact ⟨_, _, _, .unclosed fun u rest hu hcs => hclosed ⟨u, rest, hu, hcs⟩⟩

theorem quotes_of_takes (hq : q ≠ '\\') (h : Takes (quoted q) v (q :: cs) verdict w rest) :
    Quotes q (q :: cs) verdict w rest := by
  obtain ⟨verdict', w', rest', hquotes⟩ := exists_quotes q cs
  obtain ⟨rfl, rfl, rfl⟩ := h.unique (hquotes.takes hq v)
  exact hquotes

end Quoted

end LuaLex.Lexer
