import Mathlib.Data.List.Forall2
import LuaLex.Proofs.LexerPlaces

/-!
# Starting again behind a token

Behind a token a lexer has nothing left of what it has seen but its place. So what follows is lexed
as a text of its own, with the places counted from its own beginning; only a byte order mark would
be taken for something else there.

* `Position.Carried base here there`: the place `here` of a text is the place `there` where the text
  stands behind `base`. Taking characters keeps the two together (`Carried.step`, `Carried.behind`).
* `forall₂_layOut`: the same pieces laid out from two places.
* `Lexer.Lexes.unstarted`: a text without a byte order mark is lexed the same at a beginning.
* `tokenize_restarts`: what is behind a token of a text has the tokens that follow it there.
-/

namespace LuaLex

/-! ## Carrying places along -/

/-- The place `here`, counted from the beginning of a text, is the place `there` when that text
stands behind `base`. Columns differ on the line of `base` only. -/
structure Position.Carried (base here there : Position) : Prop where
  offset : there.offset = here.offset + base.offset
  line : there.line + 1 = here.line + base.line
  line_le : base.line ≤ there.line
  column_same_line : there.line = base.line → there.column + 1 = here.column + base.column
  column_later_line : base.line < there.line → there.column = here.column

namespace Position.Carried

variable {base here there : Position}

/-- A text begins where it is put. -/
theorem origin (base : Position) : Carried base .origin base where
  offset := (Nat.zero_add _).symm
  line := Nat.add_comm _ _
  line_le := Nat.le_refl _
  column_same_line _ := Nat.add_comm _ _
  column_later_line h := absurd h (Nat.lt_irrefl _)

/-- A character leads from places that belong together to places that do. -/
theorem step (h : Carried base here there) (c : Char) (follower : Option Char) :
    Carried base (here.step c follower) (there.step c follower) := by
  obtain ⟨hoffset, hline, hle, hsame, hlater⟩ := h
  unfold Position.step
  by_cases hc : endsLine c follower = true
  · -- both columns begin anew, on a line behind that of `base`
    rw [if_pos hc, if_pos hc]
    exact ⟨by simp only; omega, by simp only; omega, Nat.le_succ_of_le hle,
      fun h => absurd (Nat.lt_succ_of_le hle) (Nat.not_lt_of_le (Nat.le_of_eq h)), fun _ => rfl⟩
  · rw [if_neg hc, if_neg hc]
    refine ⟨by simp only; omega, hline, hle, fun h => ?_, fun h => congrArg (· + 1) (hlater h)⟩
    have := hsame h
    simp only
    omega

theorem behind (h : Carried base here there) (w rest : List Char) :
    Carried base (here.behind w rest) (there.behind w rest) := by
  induction w generalizing here there with
  | nil => exact h
  | cons c w ih => exact ih (h.step c _)

end Position.Carried

/-- A span of a text, and the same where the text stands behind `base`. -/
structure Span.Carried (base : Position) (here there : Span) : Prop
    extends Position.Carried base (.ofSpan here) (.ofSpan there) where
  stop : there.stop = here.stop + base.offset

/-- An item of a text, and the same where the text stands behind `base`. -/
structure TextItem.Carried (base : Position) (here there : TextItem) : Prop where
  kind_eq : there.kind = here.kind
  text_eq : there.text = here.text
  defect_eq : there.defect = here.defect
  span : here.span.Carried base there.span

/-- A token of a text with its trivia, and the same where the text stands behind `base`. -/
def Token.Carried (base : Position) (here there : Token) : Prop :=
  List.Forall₂ (TextItem.Carried base) here.items there.items

theorem TextItem.carried_placed {base here there : Position}
    (h : Position.Carried base here there) (rest : List Char) (item : TextItem) :
    (item.placed here rest).Carried base (item.placed there rest) :=
  ⟨rfl, rfl, rfl, h, (h.behind item.chars rest).offset⟩

/-- Pieces laid out from two places that belong together belong together. -/
theorem forall₂_layOut {α : Type} {chars : α → List Char} {put : Position → List Char → α → α}
    {base : Position} {R : α → α → Prop}
    (hput : ∀ here there rest a, Position.Carried base here there →
      R (put here rest a) (put there rest a))
    {here there : Position} (h : Position.Carried base here there) (rest : List Char)
    (as : List α) :
    List.Forall₂ R (layOut chars put here rest as) (layOut chars put there rest as) := by
  induction as generalizing here there with
  | nil => exact .nil
  | cons a as ih => exact .cons (hput _ _ _ a h) (ih (h.behind _ _))

theorem Token.carried_placed {base here there : Position}
    (h : Position.Carried base here there) (rest : List Char) (t : Token) :
    (t.placed here rest).Carried base (t.placed there rest) := by
  unfold Token.Carried
  rw [Token.items_placed, Token.items_placed]
  exact forall₂_layOut (fun _ _ rest item h => TextItem.carried_placed h rest item) h rest t.items

theorem forall₂_layOutTokens (base : Position) (rest : List Char) (ts : List Token) :
    List.Forall₂ (Token.Carried base) (layOutTokens .origin rest ts) (layOutTokens base rest ts) :=
  forall₂_layOut (fun _ _ rest t h => Token.carried_placed h rest t) (.origin base) rest ts

/-! ## Beginning anew -/

namespace Lexer

variable {cs rest : List Char}

theorem LexesToken.unstarted {t : Token} (h : LexesToken true cs t rest)
    (hmark : cs.head? ≠ some '\ufeff') : LexesToken false cs t rest := by
  cases h with
  | mk hpassed hfound hlexeme =>
    cases hpassed
    exact .mk (.absent hmark) hfound hlexeme

/-- Where no byte order mark stands, it does not matter whether the lexer has begun before. -/
theorem Lexes.unstarted {ts : List Token} (h : Lexes true cs ts)
    (hmark : cs.head? ≠ some '\ufeff') : Lexes false cs ts := by
  cases h with
  | last ht hend => exact .last (ht.unstarted hmark) hend
  | more ht hend hts => exact .more (ht.unstarted hmark) hend hts

end Lexer

/-! ## The rest of a text -/

/-- **Lexing restarts at every token boundary.** Behind a token of a text that is not the last one,
the text that is left, unless it begins with a byte order mark, has as tokens exactly those that
follow in the whole: the same items with the same defects, and their places are counted from where
the lexer stands behind the token. -/
theorem tokenize_restarts (s : String) :
    ∃ tokens, tokenize s = .ok tokens ∧
      ∀ front t back, tokens = front ++ t :: back → t.isEndOfInput = false →
        let place := (Lexer.after (front.length + 1) (Lexer.ofString s)).position
        ∃ v, place.offset = t.span.stop ∧ dropBytes? s.toList t.span.stop = some v ∧
          (v.head? ≠ some '\ufeff' →
            ∃ later, tokenize (String.ofList v) = .ok later ∧
              List.Forall₂ (Token.Carried place) later back) := by
  obtain ⟨tokens, htokens⟩ := exists_tokenize s
  refine ⟨tokens, htokens, ?_⟩
  rintro front t back rfl hend
  obtain ⟨w, v, hs, hstop, hnext, ⟨hend', -⟩ | ⟨-, ts, hlexes, rfl⟩⟩ :=
    nextToken_of_tokenize htokens
  · rw [hend] at hend'
    cases hend'
  intro place
  have hplace : place = Position.origin.behind w v := by
    show (Lexer.after front.length (Lexer.ofString s)).nextToken.2.position = _
    rw [hnext]
    rfl
  rw [hplace]
  refine ⟨v, ?_, ?_, fun hmark => ?_⟩
  · rw [hstop, Position.origin_behind_offset]
  · rw [hs, hstop, dropBytes?_append]
  · have hlexes' : Lexer.Lexes false (String.ofList v).toList ts := by
      rw [String.toList_ofList]
      exact hlexes.unstarted hmark
    exact ⟨_, Lexer.tokenize_of_lexes hlexes', forall₂_layOutTokens _ [] ts⟩

end LuaLex
