import LuaLex.Proofs.Layout
import LuaLex.Proofs.OnText

/-!
# Lexing a text

What lexing does to a text, without the places of its tokens: a relation `Lexes` between a text and
a list of tokens with empty spans, one constructor for each way the lexer goes on. The lexer itself
runs in step with it: on a text at the place `p` it answers with those tokens laid out from `p` on.

* `exists_lexes`: every text is lexed.
* `Lexes.chars_eq`: the tokens hold all characters of the text.
* `Lexes.tokens_eq`, `tokenize_eq`: the lexer answers with the tokens of the relation, laid out.
* `Lexes.sound_items`: which items of a text can have a defect, and how those begin.
-/

namespace LuaLex

/-- The byte order mark as a piece of trivia. -/
structure Trivia.IsMark (t : Trivia) : Prop where
  kind : t.kind = .whitespace
  text : t.text = "\ufeff"
  defect : t.defect = none

namespace Lexer

open Cursor (onText)
open Scan

/-! ## Trivia -/

/-- Whether a text begins with trivia: with a blank, a line break character or two hyphens. -/
def startsTrivia : List Char → Bool
  | [] => false
  | c :: cs =>
    CharClass.isBlank c || CharClass.isLineEnd c || (c == '-' && cs.head? == some '-')

/-- Where no trivia begins, none is taken. -/
theorem takes_triviaText_none {cs : List Char} (h : startsTrivia cs = false) :
    Takes triviaText [] cs none [] cs := by
  cases cs with
  | nil => exact (Takes.bind_iff (.current [] [])).mpr (.pure none [] [])
  | cons c cs =>
    simp only [startsTrivia, Bool.or_eq_false_iff, CharClass.isLineEnd, beq_eq_false_iff_ne,
      Bool.and_eq_false_iff] at h
    obtain ⟨⟨hblank, hn, hr⟩, hminus⟩ := h
    refine (Takes.bind_iff (.current [] (c :: cs))).mpr ?_
    simp only [List.head?_cons]
    rw [if_neg (by simp [hblank]), if_neg hn, if_neg hr]
    by_cases hc : c = '-'
    · have hsecond : (c :: cs)[1]? ≠ some '-' := by
        simpa [hc, List.head?_eq_getElem?] using hminus
      rw [if_pos hc]
      refine (Takes.bind_iff (.peek 1 [] (c :: cs))).mpr ?_
      rw [if_neg hsecond]
      exact .pure none [] (c :: cs)
    · rw [if_neg hc]
      exact .pure none [] (c :: cs)

theorem startsTrivia_of_takes {cs w rest : List Char} {v : TriviaKind × Option Defect}
    (h : Takes triviaText [] cs (some v) w rest) : startsTrivia cs = true := by
  cases hs : startsTrivia cs with
  | true => rfl
  | false => cases (h.unique (takes_triviaText_none hs)).1

/-- What is taken where trivia begins: the only defect it can have is that of a comment which is
not closed. -/
def TriviaVerdict (first : Char) (o : Option (TriviaKind × Option Defect)) : Prop :=
  ∃ kind defect, o = some (kind, defect) ∧
    (defect = none ∨ kind = .comment ∧ defect = some .unterminatedLongComment ∧ first = '-')

theorem verdict_of_startsTrivia {c : Char} {cs w rest : List Char}
    {o : Option (TriviaKind × Option Defect)} (h : Takes triviaText [] (c :: cs) o w rest)
    (hs : startsTrivia (c :: cs) = true) : TriviaVerdict c o := by
  have hplain : ∀ {kind}, TriviaVerdict c (some (kind, none)) := ⟨_, _, rfl, Or.inl rfl⟩
  replace h := (Takes.bind_iff (.current [] (c :: cs))).mp h
  simp only [List.head?_cons] at h
  by_cases hblank : CharClass.isBlank c = true
  · rw [if_pos hblank] at h
    exact h.answers (.bind fun _ => .pure hplain)
  rw [if_neg hblank] at h
  by_cases hn : c = '\n'
  · rw [if_pos hn] at h
    exact h.answers (.bind fun _ => .pure hplain)
  rw [if_neg hn] at h
  by_cases hr : c = '\r'
  · rw [if_pos hr] at h
    exact h.answers (.bind fun _ => .bind fun _ => .pure hplain)
  rw [if_neg hr] at h
  -- what is left of the ways in which trivia begins is a pair of hyphens
  obtain ⟨hc, hsecond⟩ : c = '-' ∧ cs.head? = some '-' := by
    simpa [startsTrivia, CharClass.isLineEnd, hblank, hn, hr] using hs
  rw [if_pos hc] at h
  replace h := (Takes.bind_iff (.peek 1 [] (c :: cs))).mp h
  rw [if_pos (by simpa [List.head?_eq_getElem?] using hsecond)] at h
  exact h.answers (.bind_of sound_comment fun _ hd =>
    .pure ⟨_, _, rfl, hd.imp_right fun hd => ⟨rfl, hd, hc⟩⟩)

/-- The trivia at the beginning of a text, and what follows it. -/
inductive LexesTrivia : List Char → List Trivia → List Char → Prop
  | stop {cs : List Char} : startsTrivia cs = false → LexesTrivia cs [] cs
  | next {cs w mid rest : List Char} {kind : TriviaKind} {defect : Option Defect}
      {ts : List Trivia} :
      Takes triviaText [] cs (some (kind, defect)) w mid → LexesTrivia mid ts rest →
        LexesTrivia cs (⟨kind, String.ofList w, .dummy, defect⟩ :: ts) rest

theorem exists_lexesTrivia (cs : List Char) : ∃ ts rest, LexesTrivia cs ts rest := by
  induction hn : cs.length using Nat.strongRecOn generalizing cs with
  | ind n ih =>
    cases hs : startsTrivia cs with
    | false => exact ⟨[], cs, .stop hs⟩
    | true =>
      obtain ⟨o, w, mid, h⟩ := reading_triviaText.exists_takes [] cs
      obtain ⟨c, cs, rfl⟩ : ∃ c l, cs = c :: l := by
        cases cs with
        | nil => cases hs
        | cons c l => exact ⟨c, l, rfl⟩
      obtain ⟨kind, defect, rfl, -⟩ := verdict_of_startsTrivia h hs
      have hw : 0 < w.length := List.length_pos_iff.mpr (h.ne_nil (takesWhen_triviaText _) rfl)
      have hlt : mid.length < n := by
        rw [← hn, h.split, List.length_append]
        omega
      obtain ⟨ts, rest, hts⟩ := ih _ hlt mid rfl
      exact ⟨_, rest, .next h hts⟩

namespace LexesTrivia

variable {cs rest : List Char} {ts : List Trivia}

theorem split (h : LexesTrivia cs ts rest) : cs = triviaChars ts ++ rest := by
  induction h with
  | stop _ => rfl
  | next h _ ih =>
    rw [h.split, ih, triviaChars, triviaChars, List.flatMap_cons, String.toList_ofList,
      List.append_assoc]

/-- No trivia is left over. -/
theorem startsTrivia_rest (h : LexesTrivia cs ts rest) : startsTrivia rest = false := by
  induction h with
  | stop h => exact h
  | next _ _ ih => exact ih

/-- Every piece of trivia is taken where it stands. -/
theorem exists_takes (h : LexesTrivia cs ts rest) {front back : List Trivia} {t : Trivia}
    (hts : ts = front ++ t :: back) :
    ∃ cs' mid, cs = triviaChars front ++ cs' ∧
      Takes triviaText [] cs' (some (t.kind, t.defect)) t.text.toList mid := by
  induction h generalizing front with
  | stop _ => simp at hts
  | @next cs w mid rest kind defect ts h _ ih =>
    cases front with
    | nil =>
      obtain ⟨rfl, -⟩ := List.cons.inj hts
      refine ⟨cs, mid, rfl, ?_⟩
      rwa [String.toList_ofList]
    | cons u front =>
      obtain ⟨rfl, rfl⟩ := List.cons.inj hts
      obtain ⟨cs', mid', rfl, htakes⟩ := ih rfl
      refine ⟨cs', mid', ?_, htakes⟩
      rw [triviaChars_cons, String.toList_ofList, List.append_assoc]
      exact h.split

/-- The loop of the lexer finds the trivia and gives it its places. -/
theorem loop_eq (h : LexesTrivia cs ts rest) (p : Position) (found : Array Trivia) :
    loop triviaRound progress_triviaRound found (onText p [] cs) =
      .ok (found ++ (layOutTrivia p rest ts).toArray)
        (onText (p.behind (triviaChars ts) rest) [] rest) := by
  induction h generalizing p found with
  | @stop cs h =>
    have hround : triviaRound found (onText p [] cs) = .ok (.stop found) (onText p [] cs) := by
      unfold triviaRound
      rw [bind_ok (begin_onText p [] cs), Position.behind_nil,
        bind_ok ((takes_triviaText_none h).run p)]
      rfl
    rw [Scan.loop_eq, bind_ok hround]
    show EStateM.Result.ok found _ = _
    simp [layOutTrivia, layOut, triviaChars]
  | @next cs w mid rest kind defect ts h hts ih =>
    let t : Trivia := ⟨kind, String.ofList w, .dummy, defect⟩
    have hround : triviaRound found (onText p [] cs) =
        .ok (.again (found.push (t.placed p mid))) (onText (p.behind w mid) [] mid) := by
      unfold triviaRound
      rw [bind_ok (begin_onText p [] _), Position.behind_nil, bind_ok (h.run p), List.nil_append]
      simp only [finishTrivia, Trivia.placed, t, String.toList_ofList]
      rfl
    rw [Scan.loop_eq, bind_ok hround]
    show loop _ _ _ _ = _
    rw [ih, layOutTrivia_cons, triviaChars_cons, Position.behind_append, String.toList_ofList,
      ← hts.split]
    simp [t]

/-- What the lexer calls trivia is the trivia at its places. -/
theorem run (h : LexesTrivia cs ts rest) (p : Position) :
    trivia (onText p [] cs) =
      .ok (layOutTrivia p rest ts) (onText (p.behind (triviaChars ts) rest) [] rest) := by
  unfold trivia
  rw [bind_ok (h.loop_eq p #[])]
  show EStateM.Result.ok _ _ = _
  simp

end LexesTrivia

/-! ## The byte order mark -/

/-- The byte order mark at the beginning of a text, as trivia. It is looked for only where the
lexer has not started. -/
inductive LexesMark : Bool → List Char → List Trivia → List Char → Prop
  | passed {cs : List Char} : LexesMark true cs [] cs
  | absent {cs : List Char} : cs.head? ≠ some '\ufeff' → LexesMark false cs [] cs
  | present {cs : List Char} :
      LexesMark false ('\ufeff' :: cs) [⟨.whitespace, "\ufeff", .dummy, none⟩] cs

theorem exists_lexesMark (started : Bool) (cs : List Char) :
    ∃ mark rest, LexesMark started cs mark rest := by
  cases started with
  | true => exact ⟨[], cs, .passed⟩
  | false =>
    by_cases h : cs.head? = some '\ufeff'
    · obtain ⟨rest, rfl⟩ := List.head?_eq_some_iff.mp h
      exact ⟨_, rest, .present⟩
    · exact ⟨[], cs, .absent h⟩

namespace LexesMark

variable {started : Bool} {cs rest : List Char} {mark : List Trivia}

theorem split (h : LexesMark started cs mark rest) : cs = triviaChars mark ++ rest := by
  cases h with
  | passed => rfl
  | absent _ => rfl
  | present => rfl

theorem run (h : LexesMark started cs mark rest) (p : Position) :
    markOf started (onText p [] cs) =
      .ok (layOutTrivia p rest mark) (onText (p.behind (triviaChars mark) rest) [] rest) := by
  cases h with
  | passed => rfl
  | absent h =>
    show byteOrderMark _ = _
    unfold byteOrderMark
    rw [bind_ok (begin_onText p [] cs), Position.behind_nil, bind_ok ((Takes.eat_of_ne [] h).run p)]
    rfl
  | present =>
    show byteOrderMark _ = _
    unfold byteOrderMark
    rw [bind_ok (begin_onText p [] _), Position.behind_nil,
      bind_ok ((Takes.eat_cons [] _ rest).run p)]
    rfl

end LexesMark

/-! ## Tokens -/

/-- How the scanner of lexemes ends: the text has ended, or the lexeme has a first character and a
sound verdict. -/
theorem lexeme_cases {cs w rest : List Char} {verdict : Verdict}
    (h : Takes lexeme [] cs verdict w rest) :
    (cs = [] ∧ verdict = .accepted .endOfInput ∧ w = []) ∨
      ∃ c w', w = c :: w' ∧ cs.head? = some c ∧ verdict.Sound := by
  replace h := (Takes.bind_iff (.current [] cs)).mp h
  cases cs with
  | nil =>
    obtain ⟨hverdict, hw, -⟩ := h.unique (.pure _ _ _)
    exact Or.inl ⟨rfl, hverdict, hw⟩
  | cons c cs =>
    have hw : w ≠ [] :=
      h.ne_nil (P := fun _ => True) (.of_takesAt (takesAt_lexemeOf rfl)) True.intro
    obtain ⟨x, w', rfl⟩ := List.exists_cons_of_ne_nil hw
    obtain ⟨rfl, -⟩ := List.cons.inj h.split
    exact Or.inr ⟨c, w', rfl, rfl, h.answers (sound_lexemeOf c)⟩

/-- At the end of a text the scanner of lexemes takes nothing. -/
theorem takes_lexeme_nil : Takes lexeme [] [] (.accepted .endOfInput) [] [] :=
  (Takes.bind_iff (.current [] [])).mpr (.pure _ _ _)

/-- The first token of a text, with its trivia, and what follows it. -/
inductive LexesToken : Bool → List Char → Token → List Char → Prop
  | mk {started : Bool} {cs mid₁ mid₂ w rest : List Char} {mark found : List Trivia}
      {kind : TokenKind} {defect : Option Defect} :
      LexesMark started cs mark mid₁ → LexesTrivia mid₁ found mid₂ →
        Takes lexeme [] mid₂ (kind, defect) w rest →
        LexesToken started cs ⟨kind, String.ofList w, mark ++ found, .dummy, defect⟩ rest

theorem lexesToken_nil : LexesToken true [] ⟨.endOfInput, "", [], .dummy, none⟩ [] :=
  .mk .passed (.stop rfl) takes_lexeme_nil

theorem exists_lexesToken (started : Bool) (cs : List Char) :
    ∃ t rest, LexesToken started cs t rest := by
  obtain ⟨mark, mid₁, hmark⟩ := exists_lexesMark started cs
  obtain ⟨found, mid₂, hfound⟩ := exists_lexesTrivia mid₁
  obtain ⟨⟨kind, defect⟩, w, rest, hlexeme⟩ := reading_lexeme.exists_takes [] mid₂
  exact ⟨_, rest, .mk hmark hfound hlexeme⟩

namespace LexesToken

variable {started : Bool} {cs rest : List Char} {t : Token}

theorem split (h : LexesToken started cs t rest) : cs = t.chars ++ rest := by
  cases h with
  | mk hmark hfound hlexeme =>
    rw [hmark.split, hfound.split, hlexeme.split, Token.chars_eq]
    simp [triviaChars]

/-- Every piece of trivia is taken where it stands, or is the byte order mark, which stands in front
of all others and is found only where the lexer has not started. -/
theorem trivia_cases (h : LexesToken started cs t rest) {front back : List Trivia} {u : Trivia}
    (hu : t.leadingTrivia = front ++ u :: back) :
    ∃ cs', cs = triviaChars front ++ cs' ∧ (started = false ∧ front = [] ∧ u.IsMark ∨ ∃ mid,
      Takes triviaText [] cs' (some (u.kind, u.defect)) u.text.toList mid) := by
  cases h with
  | @mk mid₁ mid₂ w _ mark found kind defect hmark hfound hlexeme =>
    have hbehind : ∀ {front'}, front = mark ++ front' → found = front' ++ u :: back →
        ∃ cs', cs = triviaChars front ++ cs' ∧ ∃ mid,
          Takes triviaText [] cs' (some (u.kind, u.defect)) u.text.toList mid := by
      rintro front' rfl hback
      obtain ⟨cs', mid, rfl, htakes⟩ := hfound.exists_takes hback
      refine ⟨cs', ?_, mid, htakes⟩
      rw [hmark.split, triviaChars_append, List.append_assoc]
    cases hmark with
    | passed =>
      obtain ⟨cs', hcs, htakes⟩ := hbehind rfl hu
      exact ⟨cs', hcs, Or.inr htakes⟩
    | absent _ =>
      obtain ⟨cs', hcs, htakes⟩ := hbehind rfl hu
      exact ⟨cs', hcs, Or.inr htakes⟩
    | @present cs =>
      cases front with
      | nil =>
        obtain ⟨rfl, -⟩ := List.cons.inj hu
        exact ⟨_, rfl, Or.inl ⟨rfl, rfl, rfl, rfl, rfl⟩⟩
      | cons v front =>
        obtain ⟨rfl, hback⟩ := List.cons.inj hu
        obtain ⟨cs', hcs, htakes⟩ := hbehind rfl hback
        exact ⟨cs', hcs, Or.inr htakes⟩

/-- The end of input is found at the end of the text only. -/
theorem rest_eq_nil (h : LexesToken started cs t rest) (ht : t.isEndOfInput = true) :
    rest = [] := by
  cases h with
  | mk hmark hfound hlexeme =>
    rcases lexeme_cases hlexeme with ⟨hcs, -, -⟩ | ⟨c, w, -, -, hsound⟩
    · exact (List.append_eq_nil_iff.mp (hlexeme.split.symm.trans hcs)).2
    · exact absurd (by simpa [Token.isEndOfInput] using ht) hsound.not_end

/-- Every other token takes something. -/
theorem length_lt (h : LexesToken started cs t rest) (ht : t.isEndOfInput = false) :
    rest.length < cs.length := by
  rw [h.split, Token.chars_eq]
  cases h with
  | mk hmark hfound hlexeme =>
    rcases lexeme_cases hlexeme with ⟨-, hverdict, -⟩ | ⟨c, w, rfl, -, -⟩
    · cases hverdict
      cases ht
    · simp only [List.length_append, String.toList_ofList, List.length_cons]
      omega

/-- What the lexer calls a token is the token at its place. -/
theorem run (h : LexesToken started cs t rest) (p : Position) :
    token started (onText p [] cs) =
      .ok (t.placed p rest) (onText (p.behind t.chars rest) [] rest) := by
  rw [Token.chars_eq]
  cases h with
  | @mk mid₁ mid₂ w _ mark found kind defect hmark hfound hlexeme =>
    have hmid : triviaChars found ++ mid₂ = mid₁ := hfound.split.symm
    have hw : w ++ rest = mid₂ := hlexeme.split.symm
    have hleading : triviaChars (mark ++ found) = triviaChars mark ++ triviaChars found :=
      List.flatMap_append
    have hlayout : layOutTrivia p mid₂ (mark ++ found) =
        layOutTrivia p mid₁ mark ++ layOutTrivia (p.behind (triviaChars mark) mid₁) mid₂ found := by
      rw [← hmid]
      exact layOut_append p mid₂ mark found
    unfold token
    rw [bind_ok (hmark.run p), bind_ok (hfound.run _), bind_ok (begin_onText _ [] mid₂),
      Position.behind_nil, bind_ok (hlexeme.run _), List.nil_append]
    simp only
    rw [bind_ok (finish_onText _ w rest)]
    simp only [Token.placed, String.toList_ofList, hw, hlayout, hleading, Position.behind_append,
      hmid]
    rfl

end LexesToken

/-! ## Whole texts -/

/-- The tokens of a text, of which the last is the end of input. -/
inductive Lexes : Bool → List Char → List Token → Prop
  | last {started : Bool} {cs : List Char} {t : Token} :
      LexesToken started cs t [] → t.isEndOfInput = true → Lexes started cs [t]
  | more {started : Bool} {cs rest : List Char} {t : Token} {ts : List Token} :
      LexesToken started cs t rest → t.isEndOfInput = false → Lexes true rest ts →
        Lexes started cs (t :: ts)

/-- **Every text is lexed.** -/
theorem exists_lexes (started : Bool) (cs : List Char) : ∃ ts, Lexes started cs ts := by
  induction hn : cs.length using Nat.strongRecOn generalizing started cs with
  | ind n ih =>
    obtain ⟨t, rest, h⟩ := exists_lexesToken started cs
    cases ht : t.isEndOfInput with
    | true =>
      obtain rfl := h.rest_eq_nil ht
      exact ⟨[t], .last h ht⟩
    | false =>
      have hlt : rest.length < n := hn ▸ h.length_lt ht
      obtain ⟨ts, hts⟩ := ih _ hlt true rest rfl
      exact ⟨t :: ts, .more h ht hts⟩

namespace Lexes

variable {started : Bool} {cs : List Char} {ts : List Token}

/-- **No character is lost or added.** -/
theorem chars_eq (h : Lexes started cs ts) : ts.flatMap Token.chars = cs := by
  induction h with
  | last h _ => rw [h.split, List.flatMap_singleton, List.append_nil]
  | more h _ _ ih => rw [h.split, List.flatMap_cons, ih]

/-- **The lexer answers with the tokens at their places.** -/
theorem tokens_eq (h : Lexes started cs ts) (p : Position) :
    (⟨onText p [] cs, started, false⟩ : Lexer).tokens = .ok (layOutTokens p [] ts) := by
  induction h generalizing p with
  | @last _ _ t h ht =>
    have ht' : (t.placed p []).isEndOfInput = true := ht
    rw [Lexer.tokens_eq, h.run p]
    simp only [ht', if_true]
    rfl
  | @more _ _ rest t ts h ht hts ih =>
    have ht' : (t.placed p rest).isEndOfInput = false := ht
    rw [Lexer.tokens_eq, h.run p]
    simp only [ht', Bool.false_eq_true, if_false, ih]
    rw [layOutTokens_cons, List.append_nil, hts.chars_eq]
    rfl

/-- A token of a text is the one that is lexed behind those in front of it. -/
theorem exists_lexesToken (h : Lexes started cs ts) {p : Position} {front back : List Token}
    {t : Token} (hts : layOutTokens p [] ts = front ++ t :: back) :
    ∃ cs' t' rest, cs = front.flatMap Token.chars ++ cs' ∧
      LexesToken (started || !front.isEmpty) cs' t' rest ∧
        t = t'.placed (p.behind (front.flatMap Token.chars) cs') rest := by
  induction h generalizing p front with
  | @last started cs t' h _ =>
    cases front with
    | nil =>
      obtain ⟨rfl, -⟩ := List.cons.inj hts
      exact ⟨cs, t', [], rfl, by simpa using h, rfl⟩
    | cons u front => simp [layOutTokens, layOut] at hts
  | @more started cs rest t' ts h _ htail ih =>
    rw [layOutTokens_cons, htail.chars_eq, List.append_nil] at hts
    cases front with
    | nil =>
      obtain ⟨rfl, -⟩ := List.cons.inj hts
      exact ⟨cs, t', rest, rfl, by simpa using h, rfl⟩
    | cons u front =>
      obtain ⟨rfl, htail'⟩ := List.cons.inj hts
      obtain ⟨cs', v, rest', rfl, hv, rfl⟩ := ih htail'
      refine ⟨cs', v, rest', ?_, by simpa using hv, ?_⟩
      · rw [h.split, List.flatMap_cons, Token.chars_placed, List.append_assoc]
      · rw [List.flatMap_cons, Token.chars_placed, Position.behind_append]

/-- The end of input is the last token, and no other one is. -/
theorem exists_last (h : Lexes started cs ts) :
    ∃ front last, ts = front ++ [last] ∧ (∀ t ∈ front, t.isEndOfInput = false) ∧
      last.isEndOfInput = true := by
  induction h with
  | @last _ _ t _ ht => exact ⟨[], t, rfl, by simp, ht⟩
  | @more _ _ _ t _ _ ht _ ih =>
    obtain ⟨front, last, rfl, hfront, hlast⟩ := ih
    exact ⟨t :: front, last, rfl, List.forall_mem_cons.mpr ⟨ht, hfront⟩, hlast⟩

end Lexes

theorem tokenize_of_lexes {s : String} {ts : List Token} (h : Lexes false s.toList ts) :
    tokenize s = .ok (layOutTokens .origin [] ts) :=
  h.tokens_eq .origin

/-- **Lexing a text** answers with the tokens of the text, laid out from its beginning on. -/
theorem tokenize_eq (s : String) :
    ∃ ts, Lexes false s.toList ts ∧ tokenize s = .ok (layOutTokens .origin [] ts) := by
  obtain ⟨ts, h⟩ := exists_lexes false s.toList
  exact ⟨ts, h, tokenize_of_lexes h⟩

end Lexer

/-! ## Which items have defects -/

/-- A token has a defect exactly when it is malformed, and what has a defect does not begin with a
line break character. -/
structure TextItem.Sound (item : TextItem) : Prop where
  unknown_iff : ∀ kind, item.kind = .token kind → (kind = .unknown ↔ item.defect.isSome)
  head : item.defect.isSome → ∃ c w, item.chars = c :: w ∧ CharClass.isLineEnd c = false

namespace TextItem.Sound

variable {item : TextItem}

/-- Trivia without a defect. -/
theorem of_trivia {kind : TriviaKind} (hkind : item.kind = .trivia kind)
    (hdefect : item.defect = none) : item.Sound where
  unknown_iff kind' hkind' := by
    rw [hkind] at hkind'
    cases hkind'
  head h := by
    rw [hdefect] at h
    cases h

/-- The place of an item does not matter. -/
theorem placed (h : item.Sound) (p : Position) (rest : List Char) : (item.placed p rest).Sound :=
  ⟨h.unknown_iff, h.head⟩

end TextItem.Sound

namespace Lexer

open Scan

theorem LexesMark.sound {started : Bool} {cs rest : List Char} {mark : List Trivia}
    (h : LexesMark started cs mark rest) : ∀ t ∈ mark, t.item.Sound := by
  cases h with
  | passed => simp
  | absent _ => simp
  | present =>
    intro t ht
    rw [List.mem_singleton.mp ht]
    exact .of_trivia rfl rfl

theorem LexesTrivia.sound {cs rest : List Char} {ts : List Trivia} (h : LexesTrivia cs ts rest) :
    ∀ t ∈ ts, t.item.Sound := by
  induction h with
  | stop _ => simp
  | @next cs w mid rest kind defect ts h _ ih =>
    intro t ht
    rcases List.mem_cons.mp ht with rfl | ht
    · have hs := startsTrivia_of_takes h
      obtain ⟨c, w, rfl⟩ := List.exists_cons_of_ne_nil (h.ne_nil (takesWhen_triviaText _) rfl)
      obtain rfl : cs = c :: (w ++ mid) := h.split
      obtain ⟨_, _, ho, hdefect | ⟨-, -, hc⟩⟩ := verdict_of_startsTrivia h hs
      · cases ho
        exact .of_trivia rfl hdefect
      · refine ⟨?_, fun _ => ⟨c, w, String.toList_ofList, ?_⟩⟩
        · intro kind hkind
          cases hkind
        · rw [hc]
          decide
    · exact ih t ht

theorem LexesToken.sound {started : Bool} {cs rest : List Char} {t : Token}
    (h : LexesToken started cs t rest) : ∀ item ∈ t.items, item.Sound := by
  cases h with
  | @mk mid₁ mid₂ w _ mark found kind defect hmark hfound hlexeme =>
    intro item hitem
    rcases List.mem_append.mp hitem with hitem | hitem
    · obtain ⟨t, ht, rfl⟩ := List.mem_map.mp hitem
      rcases List.mem_append.mp ht with ht | ht
      · exact hmark.sound t ht
      · exact hfound.sound t ht
    · rw [List.mem_singleton.mp hitem]
      rcases lexeme_cases hlexeme with ⟨-, hverdict, -⟩ | ⟨c, w, rfl, hhead, hsound⟩
      · cases hverdict
        refine ⟨?_, fun h => by cases h⟩
        intro kind hkind
        cases hkind
        simp [Token.item]
      · refine ⟨?_, fun _ => ⟨c, w, String.toList_ofList, ?_⟩⟩
        · intro kind hkind
          cases hkind
          exact hsound.unknown_iff
        · -- a line break character would have been trivia
          obtain ⟨rest', rfl⟩ := List.head?_eq_some_iff.mp hhead
          have hstop := hfound.startsTrivia_rest
          simp only [startsTrivia, Bool.or_eq_false_iff] at hstop
          exact hstop.1.2

/-- **Which items have a defect**: of the tokens the malformed ones, and none that begins with a
line break character. -/
theorem Lexes.sound_items {started : Bool} {cs : List Char} {ts : List Token}
    (h : Lexes started cs ts) : ∀ item ∈ itemsOf ts, item.Sound := by
  induction h with
  | last h _ =>
    intro item hitem
    rw [itemsOf_cons, itemsOf_nil, List.append_nil] at hitem
    exact h.sound item hitem
  | more h _ _ ih =>
    intro item hitem
    rcases List.mem_append.mp (itemsOf_cons _ _ ▸ hitem) with hitem | hitem
    · exact h.sound item hitem
    · exact ih item hitem

end Lexer

end LuaLex
