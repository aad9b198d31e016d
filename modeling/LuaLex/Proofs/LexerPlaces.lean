import LuaLex.Proofs.LineTable
import LuaLex.Proofs.RoundTrip

/-!
# The places of a lexer

The lexer counts lines and columns while it takes characters; a source file finds its lines in the
bytes. They agree at every place a lexer comes to.

* `Lexer.exists_after`: where a lexer stands that was asked for any number of tokens.
* `nextToken_of_tokenize`: what it hands out in its turn, and where it stands behind that.
* `lexer_places_located`: all these places agree with the lines of the text.
-/

namespace LuaLex

namespace Lexer

open Cursor (onText)

/-- A lexer after it was asked for `n` tokens, whatever it answered. -/
def after : Nat → Lexer → Lexer
  | 0, lexer => lexer
  | n + 1, lexer => (after n lexer).nextToken.2

/-- One more token leads from one place of a text to another one behind it. -/
theorem nextToken_onText (p : Position) (cs : List Char) (started finished : Bool) :
    ∃ w rest, cs = w ++ rest ∧
      (⟨onText p [] cs, started, finished⟩ : Lexer).nextToken.2 =
        ⟨onText (p.behind w rest) [] rest, true, finished⟩ := by
  obtain ⟨t, rest, h⟩ := exists_lexesToken started cs
  refine ⟨t.chars, rest, h.split, ?_⟩
  simp only [nextToken, h.run p]

/-- A lexer on a text stands behind a part of it, however often it was asked. -/
theorem exists_after (s : String) (n : Nat) :
    ∃ v rest started, s.toList = v ++ rest ∧
      after n (ofString s) = ⟨onText (Position.origin.behind v rest) [] rest, started, false⟩ := by
  induction n with
  | zero => exact ⟨[], s.toList, false, rfl, rfl⟩
  | succ n ih =>
    obtain ⟨v, cs, started, hs, hafter⟩ := ih
    obtain ⟨w, rest, rfl, hnext⟩ :=
      nextToken_onText (Position.origin.behind v cs) cs started false
    refine ⟨v ++ w, rest, true, by rw [hs, List.append_assoc], ?_⟩
    rw [after, hafter, hnext, Position.behind_append]

/-- Asking once more at the end is asking once more at the beginning. -/
theorem after_succ (n : Nat) (lexer : Lexer) : after (n + 1) lexer = after n lexer.nextToken.2 := by
  induction n with
  | zero => rfl
  | succ n ih =>
    show (after (n + 1) lexer).nextToken.2 = (after n lexer.nextToken.2).nextToken.2
    rw [ih]

/-- A lexer on a text hands out the token that is lexed there. -/
theorem LexesToken.nextToken_eq {started : Bool} {cs rest : List Char} {t : Token}
    (h : LexesToken started cs t rest) (p : Position) (finished : Bool) :
    (⟨onText p [] cs, started, finished⟩ : Lexer).nextToken =
      (.ok (t.placed p rest), ⟨onText (p.behind t.chars rest) [] rest, true, finished⟩) := by
  simp only [nextToken, h.run p]

/-- The first token of a text is its last one, or others follow behind it. -/
theorem Lexes.cons_cases {started : Bool} {cs : List Char} {t : Token} {ts : List Token}
    (h : Lexes started cs (t :: ts)) :
    ∃ rest, LexesToken started cs t rest ∧
      (t.isEndOfInput = true ∧ ts = [] ∨ t.isEndOfInput = false ∧ Lexes true rest ts) := by
  cases h with
  | last ht hend => exact ⟨[], ht, Or.inl ⟨hend, rfl⟩⟩
  | more ht hend hts => exact ⟨_, ht, Or.inr ⟨hend, hts⟩⟩

/-- **Behind its first tokens a text is lexed on its own**, and the lexer stands there when it has
handed them out. -/
theorem Lexes.after_eq {started : Bool} {cs : List Char} {front back : List Token}
    (h : Lexes started cs (front ++ back)) (hback : back ≠ []) (p : Position) (finished : Bool) :
    ∃ rest, cs = front.flatMap Token.chars ++ rest ∧ Lexes (started || !front.isEmpty) rest back ∧
      after front.length ⟨onText p [] cs, started, finished⟩ =
        ⟨onText (p.behind (front.flatMap Token.chars) rest) [] rest, started || !front.isEmpty,
          finished⟩ := by
  induction front generalizing started cs p with
  | nil => exact ⟨cs, rfl, by simpa using h, by simp [after]⟩
  | cons t front ih =>
    obtain ⟨mid, ht, ⟨-, hnil⟩ | ⟨-, hts⟩⟩ := h.cons_cases
    · exact absurd (List.append_eq_nil_iff.mp hnil).2 hback
    obtain ⟨rest, rfl, hrest, hafter⟩ := ih hts (p.behind t.chars mid)
    refine ⟨rest, ?_, by simpa using hrest, ?_⟩
    · rw [ht.split, List.flatMap_cons, List.append_assoc]
    · rw [List.length_cons, after_succ, ht.nextToken_eq, hafter, List.flatMap_cons,
        Position.behind_append]
      simp

end Lexer

open Lexer Cursor in
/-- **A token of a text is handed out in its turn**, and then the lexer stands behind it: at the end
of the text, or where the tokens that follow are lexed. -/
theorem nextToken_of_tokenize {s : String} {front back : List Token} {t : Token}
    (h : tokenize s = .ok (front ++ t :: back)) :
    ∃ w v, s.toList = w ++ v ∧ t.span.stop = byteLength w ∧
      (after front.length (ofString s)).nextToken =
        (.ok t, ⟨onText (Position.origin.behind w v) [] v, true, false⟩) ∧
      (t.isEndOfInput = true ∧ v = [] ∨ t.isEndOfInput = false ∧
        ∃ ts, Lexes true v ts ∧ back = layOutTokens (Position.origin.behind w v) [] ts) := by
  obtain ⟨ts, hlexes, htokens⟩ := tokenize_eq s
  obtain ⟨front, as, rfl, rfl, htail⟩ := layOut_split (Except.ok.inj (htokens.symm.trans h))
  cases as with
  | nil => cases htail
  | cons t' ts =>
    obtain ⟨rfl, rfl⟩ := List.cons.inj htail
    obtain ⟨mid, hs, hmid, hafter⟩ := hlexes.after_eq (List.cons_ne_nil t' ts) .origin false
    obtain ⟨v, ht, hrest⟩ := hmid.cons_cases
    have hchars : t'.chars ++ v = mid := ht.split.symm
    have hts : ts.flatMap Token.chars = v := by
      rcases hrest with ⟨hend, rfl⟩ | ⟨-, hrest⟩
      · exact (ht.rest_eq_nil hend).symm
      · exact hrest.chars_eq
    simp only [List.flatMap_cons, List.append_nil, hts, hchars]
    refine ⟨front.flatMap Token.chars ++ t'.chars, v, ?_, ?_, ?_, ?_⟩
    · rw [hs, ← hchars, List.append_assoc]
    · rw [Token.stop_placed, Position.behind_offset, Position.origin_behind_offset,
        byteLength_append]
    · rw [length_layOut, Position.behind_append, hchars]
      show (after front.length ⟨onText .origin [] s.toList, false, false⟩).nextToken = _
      rw [hafter, ht.nextToken_eq]
    · rcases hrest with ⟨hend, rfl⟩ | ⟨hend, hrest⟩
      · exact Or.inl ⟨hend, ht.rest_eq_nil hend⟩
      · refine Or.inr ⟨hend, ts, hrest, ?_⟩
        rw [Position.behind_append, hchars]
        rfl

/-- **The lexer agrees with the line table.** On every text the places of all items, the end of
input among them, agree with the lines of the text, and so does the place of the lexer however often
it was asked for a token. -/
theorem lexer_places_located (name s : String) :
    (∃ tokens, tokenize s = .ok tokens ∧ ∀ item ∈ itemsOf tokens,
        (SourceFile.ofText name s).Locates (.ofSpan item.span)) ∧
      ∀ n, (SourceFile.ofText name s).Locates (Lexer.after n (Lexer.ofString s)).position := by
  constructor
  · obtain ⟨tokens, htokens⟩ := exists_tokenize s
    refine ⟨tokens, htokens, ?_⟩
    intro item hitem
    obtain ⟨before, after, hs, hspan⟩ := item_place htokens hitem
    rw [hspan, Position.ofSpan_spanTo]
    exact locates_behind name hs
  · intro n
    obtain ⟨v, rest, started, hs, hafter⟩ := Lexer.exists_after s n
    rw [hafter]
    exact locates_behind name hs

end LuaLex
