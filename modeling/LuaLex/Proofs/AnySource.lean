import LuaLex.Proofs.Bookkeeping
import LuaLex.Proofs.Tiling

/-!
# Tokens of any source

A token may be taken from a text or from a reader with faults anywhere, and behind a fault the
cursor may stand in the middle of what was once begun. Whatever the source and the cursor, the items
of a token that is taken cover exactly what was taken for it, and a token that is not taken leaves
all that was not.

* `StillWhen P m`: the program `m` takes nothing when its answer is one of `P`, such as a search for
  trivia that finds none.
* `Cursor.Spanned items c d`: the items cover what was taken from `c` to `d`.
* `spanned_token`: so do the items of a token.
* `accounts_token`: what holds of a token that ends in a fault as well.
* `exhausted_of_token`, `Exhausted.token`: the end of input is found when nothing is left, and then
  again and again.
-/

namespace LuaLex

namespace Scan

open Cursor (Passed Took)

variable {α β : Type}

/-- Nothing is taken by a run of the program whose answer is one of `P`. -/
def StillWhen (P : α → Prop) (m : Scan α) : Prop :=
  ∀ ⦃c a d⦄, m c = .ok a d → P a → Took [] c d

namespace StillWhen

variable {P : α → Prop}

theorem pure (a : α) : StillWhen P (Pure.pure a : Scan α) := by
  intro c b d h _
  cases h
  exact .refl c

theorem of_answers {m : Scan α} (h : Answers (fun a => ¬P a) m) : StillWhen P m :=
  fun _ _ _ e ha => absurd ha (h e)

theorem bind {m : Scan β} {f : β → Scan α} (hm : Keeps (Took []) m)
    (hf : ∀ b, StillWhen P (f b)) : StillWhen P (m >>= f) := by
  intro c a e h ha
  obtain ⟨b, d, hb, h⟩ := bind_eq_ok h
  have hd := hm c
  rw [hb] at hd
  exact hd.trans (hf b h ha)

theorem ite {p : Prop} [Decidable p] {m n : Scan α} (hm : StillWhen P m) (hn : StillWhen P n) :
    StillWhen P (if p then m else n) := by
  split <;> assumption

end StillWhen

theorem still_eat (x : Char) : StillWhen (· = false) (eat x) :=
  .bind (took_peek 0) fun _ => .ite (.of_answers (.bind fun _ => .pure (by simp))) (.pure _)

end Scan

/-! ## Pieces of text -/

/-- From `c` to `d` the characters of the items were taken, and their spans cover them. -/
structure Cursor.Spanned (items : List TextItem) (c d : Cursor) : Prop where
  passed : Passed (items.flatMap TextItem.chars) c d
  tiles : Tiles c.position.offset items d.position.offset

namespace Cursor.Spanned

variable {c d e : Cursor} {xs ys : List TextItem}

theorem nil (h : Passed [] c d) : Spanned [] c d := by
  refine ⟨h, ?_⟩
  rw [h.offset]
  exact .nil _

theorem append (h : Spanned xs c d) (h' : Spanned ys d e) : Spanned (xs ++ ys) c e where
  passed := by
    rw [List.flatMap_append]
    exact h.passed.trans h'.passed
  tiles := tiles_append.mpr ⟨_, h.tiles, h'.tiles⟩

end Cursor.Spanned

namespace Lexer

open Scan
open Cursor (Passed Took Spanned)

/-- A span that is begun, read and finished covers what was read. -/
theorem spanned_piece {α : Type} {k : Nat} {m : Scan α} (hm : Reading k m) {c c₁ c₂ d : Cursor}
    {a : α} {text : String} {span : Span} (hbegin : begin c = .ok () c₁) (hrun : m c₁ = .ok a c₂)
    (hfinish : finish c₂ = .ok (text, span) d) (kind : ItemKind) (defect : Option Defect) :
    Spanned [⟨kind, text, span, defect⟩] c d := by
  cases hbegin
  obtain ⟨w, h⟩ := hm.took { c with start := c.position, text := "" }
  rw [hrun] at h
  cases hfinish
  have hw : c₂.text.toList = w := h.text
  have hstart : c₂.start.offset = c.position.offset := congrArg Position.offset h.start
  have hsize : c₂.position.offset = c.position.offset + c₂.text.utf8ByteSize := by
    rw [← byteLength_toList, hw]
    exact h.offset
  refine ⟨?_, .cons hstart hsize (.nil _)⟩
  rw [List.flatMap_singleton]
  show Passed c₂.text.toList _ _
  rw [hw]
  exact ⟨h.chars, h.offset⟩

theorem spanned_finishTrivia {α : Type} {k : Nat} {m : Scan α} (hm : Reading k m)
    {c c₁ c₂ d : Cursor} {a : α} {kind : TriviaKind} {defect : Option Defect} {t : Trivia}
    (hbegin : begin c = .ok () c₁) (hrun : m c₁ = .ok a c₂)
    (hfinish : finishTrivia kind defect c₂ = .ok t d) :
    Spanned [t.item] c d := by
  obtain ⟨⟨text, span⟩, d', hfinish, hpure⟩ := bind_eq_ok hfinish
  cases hpure
  exact spanned_piece hm hbegin hrun hfinish _ _

theorem passed_begin (c : Cursor) : Passed [] c (leftBy (begin c)) := ⟨rfl, rfl⟩

theorem spanned_byteOrderMark {c d : Cursor} {mark : List Trivia}
    (h : byteOrderMark c = .ok mark d) : Spanned (mark.map Trivia.item) c d := by
  obtain ⟨u, c₁, hbegin, h⟩ := bind_eq_ok h
  obtain ⟨taken, c₂, heat, h⟩ := bind_eq_ok h
  cases taken with
  | true =>
    obtain ⟨t, d', hfinish, hpure⟩ := bind_eq_ok h
    cases hpure
    exact spanned_finishTrivia (reading_eat (k := 0) _) hbegin heat hfinish
  | false =>
    cases h
    cases hbegin
    exact .nil ((passed_begin c).trans (still_eat _ heat rfl).toPassed)

theorem still_triviaText : StillWhen (· = none) triviaText := by
  refine .bind (took_peek 0) fun o => ?_
  cases o with
  | none => exact .pure _
  | some c =>
    have hsome : ∀ v : TriviaKind × Option Defect, Answers (¬· = none) (pure (some v)) :=
      fun v => .pure (by simp)
    exact .ite (.of_answers (.bind fun _ => hsome _)) <|
      .ite (.of_answers (.bind fun _ => hsome _)) <|
      .ite (.of_answers (.bind fun _ => .bind fun _ => hsome _)) <|
      .ite (.bind (took_peek 1) fun _ => .ite (.of_answers (.bind fun _ => hsome _)) (.pure _))
        (.pure _)

/-- A round finds one more piece of trivia, or takes nothing and ends the search. -/
theorem spanned_triviaRound {found : Array Trivia} {c d : Cursor}
    {r : Round (Array Trivia) (Array Trivia)} (h : triviaRound found c = .ok r d) :
    (r = .stop found ∧ Spanned [] c d) ∨ ∃ t, r = .again (found.push t) ∧ Spanned [t.item] c d := by
  obtain ⟨u, c₁, hbegin, h⟩ := bind_eq_ok h
  obtain ⟨o, c₂, htext, h⟩ := bind_eq_ok h
  cases o with
  | none =>
    cases h
    cases hbegin
    exact Or.inl ⟨rfl, .nil ((passed_begin c).trans (still_triviaText htext rfl).toPassed)⟩
  | some v =>
    obtain ⟨t, d', hfinish, hpure⟩ := bind_eq_ok h
    cases hpure
    exact Or.inr ⟨t, rfl, spanned_finishTrivia reading_triviaText hbegin htext hfinish⟩

/-- The rounds add to what was found before what they take. -/
theorem spanned_triviaRounds {found all : Array Trivia} {c d : Cursor}
    (h : loop triviaRound progress_triviaRound found c = .ok all d) :
    ∃ ts, all.toList = found.toList ++ ts ∧ Spanned (ts.map Trivia.item) c d := by
  fun_induction loop triviaRound progress_triviaRound found c with
  | case1 found c found' c₁ e _ ih =>
    rcases spanned_triviaRound e with ⟨hr, -⟩ | ⟨t, hr, ht⟩
    · cases hr
    · cases hr
      obtain ⟨ts, hall, hts⟩ := ih h
      refine ⟨t :: ts, ?_, ht.append hts⟩
      rw [hall, Array.toList_push, List.append_assoc, List.singleton_append]
  | case2 found _ all' c₁ e =>
    cases h
    rcases spanned_triviaRound e with ⟨hr, h⟩ | ⟨t, hr, -⟩
    · cases hr
      exact ⟨[], (List.append_nil _).symm, h⟩
    · cases hr
  | case3 => cases h

/-- The search for trivia covers what it takes. -/
theorem spanned_trivia {c d : Cursor} {ts : List Trivia} (h : trivia c = .ok ts d) :
    Spanned (ts.map Trivia.item) c d := by
  obtain ⟨all, d', hloop, hpure⟩ := bind_eq_ok h
  cases hpure
  obtain ⟨ts, hall, hts⟩ := spanned_triviaRounds hloop
  have hall' : all.toList = ts := hall
  rw [hall']
  exact hts

/-- **The items of a token cover what was taken for it.** -/
theorem spanned_token {started : Bool} {c d : Cursor} {t : Token}
    (h : token started c = .ok t d) : Spanned t.items c d := by
  obtain ⟨mark, c₁, hmark, h⟩ := bind_eq_ok h
  obtain ⟨found, c₂, hfound, h⟩ := bind_eq_ok h
  obtain ⟨u, c₃, hbegin, h⟩ := bind_eq_ok h
  obtain ⟨⟨kind, defect⟩, c₄, hlexeme, h⟩ := bind_eq_ok h
  obtain ⟨⟨text, span⟩, c₅, hfinish, hpure⟩ := bind_eq_ok h
  cases hpure
  have hleading : Spanned (mark.map Trivia.item) c c₁ := by
    cases started with
    | true =>
      cases hmark
      exact .nil (.refl c)
    | false => exact spanned_byteOrderMark hmark
  rw [Token.items, List.map_append]
  exact (hleading.append (spanned_trivia hfound)).append
    (spanned_piece reading_lexeme hbegin hlexeme hfinish _ _)

/-! ## Tokens that end in a fault -/

/-- However a run of the program ends, its cursor accounts for what was taken, and it uses up the
fault that it ends with and no other. -/
structure Accounts {α : Type} (m : Scan α) : Prop where
  passed : Keeps (fun c d => ∃ w, Passed w c d) m
  meets : Meets m

namespace Accounts

variable {α β : Type}

theorem of_reading {k : Nat} {m : Scan α} (hm : Reading k m) : Accounts m where
  passed c := (hm.took c).imp fun _ h => h.toPassed
  meets := hm.meets

theorem pure (a : α) : Accounts (Pure.pure a : Scan α) := ⟨.pure composes_passed a, .pure a⟩

theorem bind {m : Scan α} {f : α → Scan β} (hm : Accounts m) (hf : ∀ a, Accounts (f a)) :
    Accounts (m >>= f) where
  passed := .bind composes_passed hm.passed fun a => (hf a).passed
  meets := .bind hm.meets fun a => (hf a).meets

theorem ite {p : Prop} [Decidable p] {m n : Scan α} (hm : Accounts m) (hn : Accounts n) :
    Accounts (if p then m else n) := by
  split <;> assumption

theorem begin : Accounts Scan.begin where
  passed _ := ⟨[], rfl, rfl⟩
  meets := .modifyGet fun _ => rfl

theorem finish : Accounts Scan.finish where
  passed _ := ⟨[], rfl, rfl⟩
  meets := .modifyGet fun _ => rfl

theorem finishTrivia (kind : TriviaKind) (defect : Option Defect) :
    Accounts (Lexer.finishTrivia kind defect) :=
  .bind .finish fun _ => .pure _

theorem markOf (started : Bool) : Accounts (Lexer.markOf started) :=
  .ite (.pure _) <| .bind .begin fun _ => .bind (.of_reading (reading_eat (k := 0) _)) fun _ =>
    .ite (.bind (.finishTrivia _ _) fun _ => .pure _) (.pure _)

theorem triviaRound (found : Array Trivia) : Accounts (Lexer.triviaRound found) :=
  .bind .begin fun _ => .bind (.of_reading reading_triviaText) fun o => by
    cases o with
    | none => exact .pure _
    | some v => exact .bind (.finishTrivia _ _) fun _ => .pure _

theorem trivia : Accounts Lexer.trivia :=
  .bind ⟨.loop composes_passed (fun b => (triviaRound b).passed) #[],
    .loop (fun b => (triviaRound b).meets) #[]⟩ fun _ => .pure _

end Accounts

/-- **Taking a token accounts for everything**, also if it ends in a fault. -/
theorem accounts_token (started : Bool) : Accounts (token started) :=
  .bind (.markOf started) fun _ => .bind .trivia fun _ => .bind .begin fun _ =>
    .bind (.of_reading reading_lexeme) fun _ => .bind .finish fun _ => .pure _

/-! ## At the end of all -/

/-- Nothing is left, neither characters nor faults. -/
def Exhausted (c : Cursor) : Prop := c.source.size = 0

theorem Exhausted.current {c : Cursor} (h : Exhausted c) : current c = .ok none c := by
  obtain ⟨source, position, start, text⟩ := c
  cases source with
  | text rest =>
    obtain rfl : rest = [] := List.length_eq_zero_iff.mp h
    rfl
  | reader ahead feed =>
    have hsize : ahead.length + feed.length = 0 := h
    obtain rfl : ahead = [] := List.length_eq_zero_iff.mp (by omega)
    obtain rfl : feed = [] := List.length_eq_zero_iff.mp (by omega)
    rfl

/-- The end of input is found only where nothing is left. -/
theorem exhausted_of_lexeme {c d : Cursor} {kind : TokenKind} {defect : Option Defect}
    (h : lexeme c = .ok (kind, defect) d) (hkind : kind = .endOfInput) : Exhausted d := by
  obtain ⟨o, c', hcurrent, hscan⟩ := bind_eq_ok h
  cases o with
  | none =>
    cases hscan
    unfold Scan.current Scan.peek onSource at hcurrent
    cases hp : Source.peek 0 c.source with
    | error e s => simp [hp] at hcurrent
    | ok p s =>
      simp only [hp] at hcurrent
      cases hcurrent
      exact Source.size_eq_zero_of_peek hp
  | some x => exact absurd hkind (sound_lexemeOf x hscan).not_end

theorem exhausted_of_token {started : Bool} {c d : Cursor} {t : Token}
    (h : token started c = .ok t d) (ht : t.isEndOfInput = true) : Exhausted d := by
  obtain ⟨mark, c₁, -, h⟩ := bind_eq_ok h
  obtain ⟨found, c₂, -, h⟩ := bind_eq_ok h
  obtain ⟨u, c₃, -, h⟩ := bind_eq_ok h
  obtain ⟨⟨kind, defect⟩, c₄, hlexeme, h⟩ := bind_eq_ok h
  obtain ⟨⟨text, span⟩, c₅, hfinish, hpure⟩ := bind_eq_ok h
  cases hpure
  cases hfinish
  show Exhausted c₄
  exact exhausted_of_lexeme hlexeme (by simpa [Token.isEndOfInput] using ht)

theorem Exhausted.eat {c : Cursor} (h : Exhausted c) (x : Char) : eat x c = .ok false c := by
  unfold Scan.eat
  rw [bind_ok h.current, if_neg (by simp)]
  rfl

theorem Exhausted.triviaText {c : Cursor} (h : Exhausted c) : triviaText c = .ok none c := by
  unfold Lexer.triviaText
  rw [bind_ok h.current]
  rfl

theorem Exhausted.lexeme {c : Cursor} (h : Exhausted c) :
    lexeme c = .ok (.accepted .endOfInput) c := by
  unfold Lexer.lexeme
  rw [bind_ok h.current]
  rfl

/-- What `begin` does to a cursor. -/
theorem begin_eq (c : Cursor) :
    begin c = .ok () { c with start := c.position, text := "" } := rfl

theorem Exhausted.markOf {c : Cursor} (h : Exhausted c) (started : Bool) :
    ∃ d, markOf started c = .ok [] d ∧ Exhausted d := by
  cases started with
  | true => exact ⟨c, rfl, h⟩
  | false =>
    have hbegun : Exhausted { c with start := c.position, text := "" } := h
    refine ⟨_, ?_, hbegun⟩
    show byteOrderMark c = _
    unfold byteOrderMark
    rw [bind_ok (begin_eq c), bind_ok (hbegun.eat _)]
    rfl

theorem Exhausted.trivia {c : Cursor} (h : Exhausted c) :
    ∃ d, trivia c = .ok [] d ∧ Exhausted d := by
  have hbegun : Exhausted { c with start := c.position, text := "" } := h
  have hround : triviaRound #[] c = .ok (.stop #[]) { c with start := c.position, text := "" } := by
    unfold triviaRound
    rw [bind_ok (begin_eq c), bind_ok hbegun.triviaText]
    rfl
  have hloop : loop triviaRound progress_triviaRound #[] c =
      .ok #[] { c with start := c.position, text := "" } := by
    rw [loop_eq, bind_ok hround]
    rfl
  refine ⟨_, ?_, hbegun⟩
  unfold Lexer.trivia
  rw [bind_ok hloop]
  rfl

/-- **Where nothing is left, the end of input is found**, again and again. -/
theorem Exhausted.token {c : Cursor} (h : Exhausted c) (started : Bool) :
    ∃ t d, token started c = .ok t d ∧ t.isEndOfInput = true ∧ t.lexeme = "" ∧
      t.leadingTrivia = [] ∧ Exhausted d := by
  obtain ⟨c₁, hmark, h₁⟩ := h.markOf started
  obtain ⟨c₂, htrivia, h₂⟩ := h₁.trivia
  have h₃ : Exhausted { c₂ with start := c₂.position, text := "" } := h₂
  unfold Lexer.token
  rw [bind_ok hmark, bind_ok htrivia, bind_ok (begin_eq c₂), bind_ok h₃.lexeme]
  exact ⟨_, _, rfl, rfl, rfl, rfl, h₂⟩

end Lexer

end LuaLex
