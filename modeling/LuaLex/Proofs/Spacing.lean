import Mathlib
import LuaLex.Proofs.CanonicalTrivia
import LuaLex.Proofs.LongBrackets
import LuaLex.Proofs.MaximalMunch
import LuaLex.Proofs.QuotedStrings

/-!
# Well-formed lexemes apart from their text

A lexeme without a defect ends where it ends because of what it is, or because what follows cannot
go on with it. No gap of blanks and line breaks can, so the lexeme is the same token in front of
every gap, wherever it comes from. And gaps are trivia, so lexemes may be put together with gaps
between them, and are found again.

* `SelfDelimiting c m`: what the scanner `m` accepts that begins with `c`, it accepts in front of
  every gap. `selfDelimiting_lexemeOf` says this of all lexemes.
* `exists_lexesTrivia_gap`: a gap is trivia without defects.
* `tokenize_spaced`: the tokens of lexemes with gaps between them.
-/

namespace LuaLex

/-! ## Gaps -/

/-- The characters that gaps are made of. -/
def gapChars : List Char := [' ', '\t', '\n', '\r']

/-- A run of blanks and line breaks. -/
def IsGap (s : String) : Prop := ∀ c ∈ s.toList, c ∈ gapChars

/-- What can stand behind a lexeme in front of which nothing else is looked at: a gap or the end. -/
def Parted (rest : List Char) : Prop := ∀ c, rest.head? = some c → c ∈ gapChars

/-- A property of the four characters of gaps. -/
theorem of_mem_gapChars {P : Char → Prop} (hspace : P ' ') (htab : P '\t') (hfeed : P '\n')
    (hreturn : P '\r') {c : Char} (hc : c ∈ gapChars) : P c := by
  simp only [gapChars, List.mem_cons, List.not_mem_nil, or_false] at hc
  rcases hc with rfl | rfl | rfl | rfl
  · exact hspace
  · exact htab
  · exact hfeed
  · exact hreturn

/-- No symbol goes on with a gap. -/
theorem continues_of_mem_gapChars (first : Char) {c : Char} (hc : c ∈ gapChars) :
    Symbol.continues first c = false := by
  refine of_mem_gapChars (P := fun c => Symbol.continues first c = false) ?_ ?_ ?_ ?_ hc
  all_goals
    unfold Symbol.continues
    split <;> decide

namespace Lexer

open Scan LongBracket

/-! ## Lexemes in front of gaps -/

/-- What `m` accepts that begins with `c`, it accepts in front of every gap too. -/
def SelfDelimiting (c : Char) (m : Scan Verdict) : Prop :=
  ∀ {w rest rest' : List Char} {kind : TokenKind},
    Takes m [] (c :: (w ++ rest)) (.accepted kind) (c :: w) rest → Parted rest' →
      Takes m [] (c :: (w ++ rest')) (.accepted kind) (c :: w) rest'

/-- A run of a class without gaps ends in front of every gap. -/
theorem takeWhile_parted {p : Char → Bool} {cs w rest : List Char} (hw : w = cs.takeWhile p)
    (hp : ∀ c ∈ gapChars, p c = false) (hrest : Parted rest) :
    (w ++ rest).takeWhile p = w ∧ (w ++ rest).dropWhile p = rest := by
  refine takeWhile_run ?_ fun c hc => hp c (hrest c hc)
  rw [hw]
  exact fun c hc => List.all_eq_true.mp List.all_takeWhile c hc

theorem selfDelimiting_name (c : Char) : SelfDelimiting c name := by
  intro w rest rest' kind h hrest'
  obtain ⟨hkind, hw, -⟩ := h.unique (takes_name _)
  have hgap : ∀ x ∈ gapChars, CharClass.isIdentContinue x = false := fun _ =>
    of_mem_gapChars (P := fun x => CharClass.isIdentContinue x = false) rfl rfl rfl rfl
  obtain ⟨htake, hdrop⟩ := takeWhile_parted hw hgap hrest'
  have hname := takes_name (c :: w ++ rest')
  rw [htake, hdrop] at hname
  rwa [hkind, ← hw]

theorem selfDelimiting_number (c : Char) : SelfDelimiting c number := by
  intro w rest rest' kind h hrest'
  obtain ⟨hkind, hw, -⟩ := h.unique (takes_number _)
  have hgap : ∀ x ∈ gapChars, CharClass.isNumberChar x = false := fun _ =>
    of_mem_gapChars (P := fun x => CharClass.isNumberChar x = false) rfl rfl rfl rfl
  obtain ⟨htake, hdrop⟩ := takeWhile_parted hw hgap hrest'
  have hnumber := takes_number (c :: w ++ rest')
  -- a number is well formed in front of a gap and in front of the end
  have hends : CharClass.endsNumber rest'.head? = true := by
    cases hhead : rest'.head? with
    | none => rfl
    | some x =>
      exact of_mem_gapChars (P := fun x => CharClass.endsNumber (some x) = true) rfl rfl rfl rfl
        (hrest' x hhead)
  have hnum : kind = .number := by
    unfold numberVerdict at hkind
    split at hkind
    · exact congrArg Prod.fst hkind
    · cases congrArg Prod.snd hkind
  rw [htake, hdrop, numberVerdict, if_pos hends, ← hnum] at hnumber
  exact hnumber

theorem selfDelimiting_quoted {c : Char} (hc : c ≠ '\\') : SelfDelimiting c (quoted c) := by
  intro w rest rest' kind h hrest'
  have hquotes := quotes_of_takes hc h
  generalize htext : c :: (w ++ rest) = text at hquotes
  generalize hverdict : Verdict.accepted kind = verdict at hquotes
  generalize hlexeme : c :: w = lexeme at hquotes
  cases hquotes with
  | string hu =>
    obtain ⟨-, rfl⟩ := List.cons.inj hlexeme
    cases hverdict
    have hquotes : Quotes c (c :: (_ ++ c :: rest')) _ _ rest' := .string hu
    simpa using hquotes.takes hc []
  | unclosed _ => cases congrArg Prod.snd hverdict

theorem selfDelimiting_bracket : SelfDelimiting '[' bracket := by
  intro w rest rest' kind h hrest'
  have hbrackets := brackets_of_takes h
  generalize htext : '[' :: (w ++ rest) = text at hbrackets
  generalize hverdict : Verdict.accepted kind = verdict at hbrackets
  generalize hlexeme : '[' :: w = lexeme at hbrackets
  cases hbrackets with
  | @string level body _ hleftmost =>
    cases hverdict
    have hleftmost' : Leftmost (closer level) body (body ++ (closer level ++ rest')) :=
      hleftmost.of_append
    rw [← List.cons_append, hlexeme, List.append_assoc, List.append_assoc]
    exact (Brackets.string hleftmost').takes []
  | unclosed _ => cases congrArg Prod.snd hverdict
  | invalid _ _ => cases congrArg Prod.snd hverdict
  | alone _ _ =>
    obtain ⟨-, rfl⟩ := List.cons.inj hlexeme
    cases hverdict
    have hhead : ∀ x ∉ gapChars, rest'.head? ≠ some x := fun x hx hhead => hx (hrest' x hhead)
    exact (Brackets.alone (hhead '=' (by decide)) (hhead '[' (by decide))).takes []

/-- What goes on for a second character ends in front of every gap. -/
theorem second_parted {c : Char} {w rest rest' : List Char} (hw : w = Symbol.second c (w ++ rest))
    (hrest' : Parted rest') : Symbol.second c (w ++ rest') = w := by
  cases w with
  | nil =>
    cases rest' with
    | nil => rfl
    | cons x rest' => simp [Symbol.second, continues_of_mem_gapChars c (hrest' x rfl)]
  | cons x w =>
    have hnext : Symbol.continues c x = true := by
      cases hnext : Symbol.continues c x with
      | true => rfl
      | false => simp [Symbol.second, hnext] at hw
    simp only [List.cons_append, Symbol.second, if_pos hnext] at hw ⊢
    exact hw.symm

theorem selfDelimiting_symbol (c : Char) : SelfDelimiting c (symbol c) := by
  intro w rest rest' kind h hrest'
  obtain ⟨hkind, hw, -⟩ := h.unique (takes_symbol c (w ++ rest))
  obtain ⟨-, hw⟩ := List.cons.inj hw
  have hsymbol := takes_symbol c (w ++ rest')
  rw [second_parted hw hrest', List.drop_left] at hsymbol
  rwa [hkind, ← hw]

/-- **Lexemes without defects end in front of every gap**, wherever they come from. -/
theorem selfDelimiting_lexemeOf (c : Char) : SelfDelimiting c (lexemeOf c) := by
  unfold lexemeOf
  split
  · exact selfDelimiting_name c
  split
  · exact selfDelimiting_number c
  split
  · refine selfDelimiting_quoted ?_
    rintro rfl
    rename_i hquote
    exact absurd hquote (by decide)
  split
  · rename_i hbracket
    exact hbracket ▸ selfDelimiting_bracket
  · exact selfDelimiting_symbol c

theorem selfDelimiting_lexeme (c : Char) : SelfDelimiting c lexeme := by
  intro w rest rest' kind h hrest'
  refine (Takes.bind_iff (.current [] (c :: (w ++ rest')))).mpr ?_
  exact selfDelimiting_lexemeOf c ((Takes.bind_iff (.current [] (c :: (w ++ rest)))).mp h) hrest'

/-! ## Gaps are trivia -/

section Gaps

variable {gap rest : List Char}

theorem triviaSteps_gap (hgap : ∀ x ∈ gap, x ∈ gapChars) : TriviaSteps (gap ++ rest) rest := by
  induction gap with
  | nil => exact .refl
  | cons c gap ih =>
    obtain ⟨hc, hgap⟩ := List.forall_mem_cons.mp hgap
    have hstep : TriviaStep (c :: (gap ++ rest)) (gap ++ rest) := by
      refine of_mem_gapChars (P := fun c => TriviaStep (c :: (gap ++ rest)) _) ?_ ?_ ?_ ?_ hc
      · exact .blank (Or.inl rfl)
      · exact .blank (Or.inr (Or.inl rfl))
      · exact .lineBreak (Or.inl rfl)
      · exact .lineBreak (Or.inr rfl)
    exact .head hstep (ih hgap)

/-- **A gap is trivia** without defects. -/
theorem exists_lexesTrivia_gap (hgap : ∀ x ∈ gap, x ∈ gapChars)
    (hrest : startsTrivia rest = false) :
    ∃ ts, LexesTrivia (gap ++ rest) ts rest ∧ ∀ t ∈ ts, t.defect = none := by
  obtain ⟨ts, rest', hts⟩ := exists_lexesTrivia (gap ++ rest)
  obtain rfl : rest' = rest :=
    hts.longest.unique (longest_of_triviaSteps (triviaSteps_gap hgap) hrest)
  have hchars : triviaChars ts = gap := List.append_cancel_right hts.split.symm
  refine ⟨ts, hts, fun t ht => ?_⟩
  obtain ⟨front, back, hfront⟩ := List.append_of_mem ht
  obtain ⟨_, _, -, htakes⟩ := hts.exists_takes hfront
  cases hd : t.defect with
  | none => rfl
  | some d =>
    -- what has a defect is a comment, and no gap holds a hyphen
    rw [hd] at htakes
    have hmem : '-' ∈ gap := by
      rw [← hchars]
      exact List.mem_flatMap.mpr ⟨t, ht, (pieces_of_takes htakes).hyphen_mem⟩
    exact absurd (hgap _ hmem) (by decide)

end Gaps

/-! ## Tokens behind gaps -/

/-- No well-formed lexeme begins with a byte order mark. -/
theorem ne_mark_of_accepted {c : Char} {cs w rest : List Char} {kind : TokenKind}
    (h : Takes lexeme [] (c :: cs) (.accepted kind) w rest) : c ≠ '\ufeff' := by
  rintro rfl
  have hsymbol : lexemeOf '\ufeff' = symbol '\ufeff' := rfl
  have hsecond : Symbol.second '\ufeff' cs = [] := by cases cs <;> rfl
  replace h := (Takes.bind_iff (.current [] ('\ufeff' :: cs))).mp h
  simp only [List.head?_cons, hsymbol] at h
  obtain ⟨hverdict, -⟩ := h.unique (takes_symbol '\ufeff' cs)
  rw [hsecond] at hverdict
  cases congrArg Prod.snd hverdict

/-- A lexeme in front of a gap begins no trivia if it begins none elsewhere. -/
theorem startsTrivia_parted {c : Char} {w rest rest' : List Char}
    (h : startsTrivia (c :: (w ++ rest)) = false) (hrest' : Parted rest') :
    startsTrivia (c :: (w ++ rest')) = false := by
  cases w with
  | cons x w => exact h
  | nil =>
    have hminus : rest'.head? ≠ some '-' := fun hhead => absurd (hrest' _ hhead) (by decide)
    simp only [startsTrivia, List.nil_append, Bool.or_eq_false_iff] at h ⊢
    exact ⟨h.1, by simp [hminus]⟩

/-- A lexeme behind a gap is a token without defects, if no byte order mark is looked for. -/
theorem exists_lexesToken_gap {gap cs w rest : List Char} {kind : TokenKind} (started : Bool)
    (hgap : ∀ x ∈ gap, x ∈ gapChars) (hmark : cs.head? ≠ some '\ufeff')
    (hcs : startsTrivia cs = false) (hlexeme : Takes lexeme [] cs (.accepted kind) w rest) :
    ∃ t, LexesToken started (gap ++ cs) t rest ∧ t.kind = kind ∧ t.lexeme = String.ofList w ∧
      ∀ item ∈ t.items, item.defect = none := by
  have habsent : (gap ++ cs).head? ≠ some '\ufeff' := by
    cases gap with
    | nil => exact hmark
    | cons x gap =>
      intro hhead
      rw [List.cons_append, List.head?_cons, Option.some.injEq] at hhead
      exact absurd (hgap x List.mem_cons_self) (hhead ▸ by decide)
  have hlexesMark : LexesMark started (gap ++ cs) [] (gap ++ cs) := by
    cases started with
    | true => exact .passed
    | false => exact .absent habsent
  obtain ⟨ts, hts, hdefects⟩ := exists_lexesTrivia_gap hgap hcs
  refine ⟨_, .mk hlexesMark hts hlexeme, rfl, rfl, ?_⟩
  intro item hitem
  rcases List.mem_append.mp hitem with hitem | hitem
  · obtain ⟨t, ht, rfl⟩ := List.mem_map.mp hitem
    exact hdefects t ht
  · rw [List.mem_singleton.mp hitem]
    rfl

end Lexer

/-! ## Lexemes with gaps -/

/-- What a token means, wherever it stands: its category and its text. -/
def Token.meaning (t : Token) : TokenKind × String := (t.kind, t.lexeme)

/-- A token of some text that is well formed and is not the end of input. -/
def Token.WellFormed (t : Token) : Prop :=
  ∃ s tokens, tokenize s = .ok tokens ∧ t ∈ tokens ∧ t.isEndOfInput = false ∧ t.defect = none

/-- Lexemes, each with a gap in front of it, and a gap behind the last one. -/
def spaced (words : List (String × Token)) (trail : String) : String :=
  String.join (words.map fun word => word.1 ++ word.2.lexeme) ++ trail

theorem toList_spaced_nil (trail : String) : (spaced [] trail).toList = trail.toList := by
  simp [spaced]

theorem toList_spaced_cons (gap : String) (t : Token) (words : List (String × Token))
    (trail : String) :
    (spaced ((gap, t) :: words) trail).toList =
      gap.toList ++ (t.lexeme.toList ++ (spaced words trail).toList) := by
  simp [spaced, String.toList_join]

section Spaced

variable {words : List (String × Token)} {trail : String}

/-- Behind each lexeme there is a gap or the end. -/
theorem parted_spaced (hgaps : ∀ word ∈ words, IsGap word.1)
    (hbetween : ∀ word ∈ words, word.1 ≠ "") (htrail : IsGap trail) :
    Parted (spaced words trail).toList := by
  intro c hc
  cases words with
  | nil =>
    rw [toList_spaced_nil] at hc
    exact htrail c (List.mem_of_head? hc)
  | cons word words =>
    obtain ⟨gap, t⟩ := word
    have hne : gap.toList ≠ [] := fun hnil =>
      hbetween _ List.mem_cons_self (String.toList_eq_nil_iff.mp hnil)
    obtain ⟨x, g, hgap⟩ := List.exists_cons_of_ne_nil hne
    rw [toList_spaced_cons, hgap, List.cons_append, List.head?_cons, Option.some.injEq] at hc
    exact hgaps _ List.mem_cons_self c (by simp [hgap, hc])

open Lexer Scan in
/-- A well-formed token is lexed from its own lexeme, in front of every gap. -/
theorem Token.WellFormed.takes {t : Token} (h : t.WellFormed) {rest : List Char}
    (hrest : Parted rest) :
    Takes Lexer.lexeme [] (t.lexeme.toList ++ rest) (.accepted t.kind) t.lexeme.toList rest ∧
      startsTrivia (t.lexeme.toList ++ rest) = false ∧
      (t.lexeme.toList ++ rest).head? ≠ some '\ufeff' := by
  obtain ⟨s, tokens, htokens, ht, hend, hdefect⟩ := h
  obtain ⟨before, cs, rest₀, -, -, hstarts, htakes⟩ := lexeme_of_tokenize htokens ht
  rw [hdefect] at htakes
  obtain ⟨c, w, hlexeme⟩ : ∃ c w, t.lexeme.toList = c :: w := by
    rcases lexeme_cases htakes with ⟨-, hverdict, -⟩ | ⟨c, w, hlexeme, -⟩
    · have hkind : t.kind = .endOfInput := congrArg Prod.fst hverdict
      simp [Token.isEndOfInput, hkind] at hend
    · exact ⟨c, w, hlexeme⟩
  have hsplit := htakes.split
  rw [hlexeme] at htakes hsplit ⊢
  rw [hsplit] at htakes hstarts
  refine ⟨selfDelimiting_lexeme c htakes hrest, startsTrivia_parted hstarts hrest, ?_⟩
  rw [List.cons_append, List.head?_cons]
  exact fun hmark => ne_mark_of_accepted htakes (Option.some.inj hmark)

open Lexer in
/-- Lexemes with gaps between them are lexed one after the other. -/
theorem exists_lexes_spaced (hwell : ∀ word ∈ words, word.2.WellFormed)
    (hgaps : ∀ word ∈ words, IsGap word.1) (hbetween : ∀ word ∈ words.tail, word.1 ≠ "")
    (htrail : IsGap trail) (started : Bool) :
    ∃ ts, Lexes started (spaced words trail).toList ts ∧
      ts.map Token.meaning = words.map (·.2.meaning) ++ [(.endOfInput, "")] ∧
      ∀ item ∈ itemsOf ts, item.defect = none := by
  induction words generalizing started with
  | nil =>
    obtain ⟨t, ht, hkind, htext, hitems⟩ :=
      exists_lexesToken_gap started htrail (by simp) rfl takes_lexeme_nil
    rw [List.append_nil, ← toList_spaced_nil] at ht
    refine ⟨[t], .last ht (by simp [Token.isEndOfInput, hkind]), ?_, by simpa using hitems⟩
    simp [Token.meaning, hkind, htext]
  | cons word words ih =>
    obtain ⟨gap, u⟩ := word
    obtain ⟨hu, hwell⟩ := List.forall_mem_cons.mp hwell
    obtain ⟨hgap, hgaps⟩ := List.forall_mem_cons.mp hgaps
    obtain ⟨hlexeme, hstarts, hmark⟩ := hu.takes (parted_spaced hgaps hbetween htrail)
    obtain ⟨t, ht, hkind, htext, hitems⟩ :=
      exists_lexesToken_gap started hgap hmark hstarts hlexeme
    obtain ⟨ts, hts, hmeanings, hdefects⟩ :=
      ih hwell hgaps (fun word hword => hbetween word (List.mem_of_mem_tail hword)) true
    rw [← toList_spaced_cons] at ht
    have hend : t.isEndOfInput = false := by
      obtain ⟨-, -, -, -, hend, -⟩ := hu
      simpa [Token.isEndOfInput, hkind] using hend
    refine ⟨t :: ts, .more ht hend hts, ?_, ?_⟩
    · simp [hmeanings, Token.meaning, hkind, htext]
    · rw [itemsOf_cons]
      exact List.forall_mem_append.mpr ⟨hitems, hdefects⟩

/-- **Trivia has no meaning.** Well-formed lexemes of any texts, written one behind the other with
gaps of blanks and line breaks between them, are lexed to tokens of the same categories with the
same texts, none of them with a defect, and the end of input behind them. -/
theorem tokenize_spaced (hwell : ∀ word ∈ words, word.2.WellFormed)
    (hgaps : ∀ word ∈ words, IsGap word.1) (hbetween : ∀ word ∈ words.tail, word.1 ≠ "")
    (htrail : IsGap trail) :
    ∃ tokens, tokenize (spaced words trail) = .ok tokens ∧
      tokens.map Token.meaning = words.map (·.2.meaning) ++ [(.endOfInput, "")] ∧
      ∀ item ∈ itemsOf tokens, item.defect = none := by
  obtain ⟨ts, hts, hmeanings, hdefects⟩ :=
    exists_lexes_spaced hwell hgaps hbetween htrail false
  refine ⟨_, Lexer.tokenize_of_lexes hts, ?_, ?_⟩
  · have hplaced : ∀ p rest t, Token.meaning (Token.placed p rest t) = t.meaning := fun _ _ _ => rfl
    rw [layOutTokens, map_layOut hplaced, hmeanings]
  · intro item hitem
    rw [itemsOf_layOut] at hitem
    obtain ⟨front, i, back, hsplit, rfl⟩ := mem_layOut hitem
    exact hdefects i (by rw [hsplit]; simp)

end Spaced

/-- Signs of three texts put together: two hyphens begin no comment, the bracket opens no long
string, and the number is well formed here too. -/
theorem tokenize_spaced_signs :
    let minus : Token := ⟨.operator, "-", [], ⟨1, 2, 1, 2⟩, none⟩
    let bracket : Token := ⟨.bracketOpen, "[", [], ⟨0, 1, 1, 1⟩, none⟩
    let number : Token := ⟨.number, "12", [], ⟨0, 2, 1, 1⟩, none⟩
    let words := [("", minus), (" ", minus), ("\r\n", bracket), ("\t", number)]
    (∀ word ∈ words, word.2.WellFormed) ∧ (∀ word ∈ words, IsGap word.1) ∧
      (∀ word ∈ words.tail, word.1 ≠ "") ∧ IsGap "" ∧
      ∃ tokens, tokenize "- -\r\n[\t12" = .ok tokens ∧
        tokens.map Token.meaning = [(.operator, "-"), (.operator, "-"), (.bracketOpen, "["),
          (.number, "12"), (.endOfInput, "")] ∧
        ∀ item ∈ itemsOf tokens, item.defect = none := by
  intro minus bracket number words
  have hminus : minus.WellFormed := by
    have htokens : tokenize "a-b" = .ok
        [⟨.identifier, "a", [], ⟨0, 1, 1, 1⟩, none⟩, minus,
          ⟨.identifier, "b", [], ⟨2, 3, 1, 3⟩, none⟩,
          ⟨.endOfInput, "", [], ⟨3, 3, 1, 4⟩, none⟩] := by
      cbv
    exact ⟨_, _, htokens, by simp, rfl, rfl⟩
  have hbracket : bracket.WellFormed := by
    have htokens : tokenize "[b" = .ok
        [bracket, ⟨.identifier, "b", [], ⟨1, 2, 1, 2⟩, none⟩,
          ⟨.endOfInput, "", [], ⟨2, 2, 1, 3⟩, none⟩] := by
      cbv
    exact ⟨_, _, htokens, by simp, rfl, rfl⟩
  have hnumber : number.WellFormed := by
    have htokens : tokenize "12;" = .ok
        [number, ⟨.punctuation, ";", [], ⟨2, 3, 1, 3⟩, none⟩,
          ⟨.endOfInput, "", [], ⟨3, 3, 1, 4⟩, none⟩] := by
      cbv
    exact ⟨_, _, htokens, by simp, rfl, rfl⟩
  have hwell : ∀ word ∈ words, word.2.WellFormed := by simp [words, hminus, hbracket, hnumber]
  have hgaps : ∀ word ∈ words, IsGap word.1 := by simp [words, IsGap, gapChars]
  have hbetween : ∀ word ∈ words.tail, word.1 ≠ "" := by simp [words]
  have htrail : IsGap "" := by simp [IsGap]
  have htext : spaced words "" = "- -\r\n[\t12" := by decide
  obtain ⟨tokens, htokens, hmeanings, hdefects⟩ := tokenize_spaced hwell hgaps hbetween htrail
  rw [htext] at htokens
  exact ⟨hwell, hgaps, hbetween, htrail, tokens, htokens, hmeanings, hdefects⟩

end LuaLex
