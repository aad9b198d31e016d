import LuaLex.Proofs.AnySource
import LuaLex.Proofs.Lockstep

/-!
# How far a fault is seen

A reader that ends in a fault is lexed beside the text of the characters in front of that fault.
Where the run on the reader fails, the run on the text goes on, and what it leaves tells how far
ahead the fault was seen: scanners of lexemes meet it only when all characters are taken, scanners
of trivia when one is left.

* `Nearsighted tail k m`: where the program `m` fails on the reader, it leaves at most `k`
  characters of the text.
* `Reading.nearsighted`: a program that looks at most `k` characters behind the one under the cursor
  is so.
* `nearsighted_token`: a token meets the fault only when all characters are taken. The one that is
  left by its trivia belongs to its lexeme (`leaves_lexeme`).
-/

namespace LuaLex

namespace Source

/-- Filling the queue fails only if there are too few characters in front of the fault. -/
theorem length_lt_of_fill {n : Nat} {ahead chars : List Char} {tail : Feed} {e : Fault}
    {s : Source} (h : fill n ahead (chars.map .ok ++ tail) = .error e s) :
    ahead.length + chars.length < n := by
  induction chars generalizing ahead with
  | nil =>
    cases tail with
    | nil => cases h
    | cons item tail =>
      by_cases hn : n ≤ ahead.length
      · simp [fill, hn] at h
      · simpa using hn
  | cons c chars ih =>
    by_cases hn : n ≤ ahead.length
    · simp [fill, hn] at h
    · have hstep : fill n (ahead ++ [c]) (chars.map .ok ++ tail) = .error e s := by
        rw [← h]
        simp [fill, hn]
      have hlt := ih hstep
      simp only [List.length_append, List.length_cons, List.length_nil] at hlt ⊢
      omega

variable {tail : Feed} {s s' t : Source} {e : Fault}

/-- Looking ahead fails only past the characters of the text. -/
theorem Mirrors.size_le_of_peek (h : Mirrors tail [] s t) {i : Nat}
    (hpeek : Source.peek i s = .error e s') : t.size ≤ i := by
  obtain ⟨ahead, chars, rfl, rfl⟩ := h
  simp only [Source.peek] at hpeek
  cases hfill : fill (i + 1) ahead (chars.map .ok ++ tail) with
  | ok queue s => simp [hfill] at hpeek
  | error x s =>
    have hlt := length_lt_of_fill hfill
    simp only [size, List.append_nil, List.length_append]
    omega

theorem Mirrors.size_eq_zero_of_next (h : Mirrors tail [] s t)
    (hnext : Source.next s = .error e s') : t.size = 0 := by
  obtain ⟨ahead, chars, rfl, rfl⟩ := h
  cases ahead with
  | cons c ahead => cases hnext
  | nil =>
    cases chars with
    | cons c chars => cases hnext
    | nil => rfl

end Source

namespace Scan

open Cursor (InStep)

variable {tail : Feed} {i j k : Nat} {α β : Type}

/-- Started where at most `j` characters are left, the program leaves at most `k`. -/
def Leaves (j k : Nat) (m : Scan α) : Prop :=
  ∀ ⦃d a d'⦄, m d = .ok a d' → d.size ≤ j → d'.size ≤ k

namespace Leaves

variable {m : Scan α} {f : α → Scan β}

theorem of_shrinks (hm : Shrinks m) : Leaves k k m := fun _ _ _ h hd => Nat.le_trans (hm.ok h) hd

theorem bind (hm : Leaves i j m) (hf : ∀ a, Leaves j k (f a)) : Leaves i k (m >>= f) := by
  intro d b d' h hd
  obtain ⟨a, d₁, hm₁, h⟩ := bind_eq_ok h
  exact hf a h (hm hm₁ hd)

end Leaves

/-- The program keeps a reader in step with the text of the characters in front of its fault, and
where it fails on the reader, it leaves at most `k` characters of the text. -/
structure Nearsighted (tail : Feed) (k : Nat) (m : Scan α) : Prop where
  lockstep : Lockstep tail [] m
  shrinks : Shrinks m
  near : ∀ ⦃c d c' d' e a⦄, InStep tail [] c d → m c = .error e c' → m d = .ok a d' → d'.size ≤ k

namespace Nearsighted

/-- A program that never fails. -/
theorem of_ok {m : Scan α} (h : Lockstep tail [] m) (hs : Shrinks m)
    (hok : ∀ c, ∃ a c', m c = .ok a c') : Nearsighted tail k m where
  lockstep := h
  shrinks := hs
  near c d c' d' e a _ herror _ := by
    obtain ⟨b, c'', hc⟩ := hok c
    cases hc.symm.trans herror

theorem pure (a : α) : Nearsighted tail k (Pure.pure a : Scan α) :=
  .of_ok (.pure a) (.pure a) fun c => ⟨a, c, rfl⟩

/-- What fails in the first part may leave more, if the second part takes it. -/
theorem bind_of {m : Scan α} {f : α → Scan β} (hm : Nearsighted tail j m)
    (hf : ∀ a, Nearsighted tail k (f a)) (hrest : ∀ a, Leaves j k (f a)) :
    Nearsighted tail k (m >>= f) where
  lockstep := .bind hm.lockstep fun a => (hf a).lockstep
  shrinks := .bind hm.shrinks fun a => (hf a).shrinks
  near c d c' d' e b h herror hok := by
    obtain ⟨a, d₁, hd, hok⟩ := bind_eq_ok hok
    rcases hm.lockstep.beside h hd with ⟨c₁, hc, h₁⟩ | ⟨x, c₁, hc, -⟩
    · rw [bind_ok hc] at herror
      exact (hf a).near h₁ herror hok
    · exact hrest a hok (hm.near h hc hd)

theorem bind {m : Scan α} {f : α → Scan β} (hm : Nearsighted tail k m)
    (hf : ∀ a, Nearsighted tail k (f a)) : Nearsighted tail k (m >>= f) :=
  .bind_of hm hf fun a => .of_shrinks (hf a).shrinks

theorem ite {p : Prop} [Decidable p] {m n : Scan α} (hm : Nearsighted tail k m)
    (hn : Nearsighted tail k n) : Nearsighted tail k (if p then m else n) := by
  split <;> assumption

theorem withText {f : Cursor → Scan α} (htext : ∀ c d, c.text = d.text → f c = f d)
    (hf : ∀ c, Nearsighted tail k (f c)) :
    Nearsighted tail k ((get : Scan Cursor) >>= f) where
  lockstep := .withText htext fun c => (hf c).lockstep
  shrinks := .bind .get fun c => (hf c).shrinks
  near c d c' d' e a h herror hok := by
    have hd : f c d = .ok a d' := by
      rw [htext c d h.text]
      exact hok
    exact (hf c).near h herror hd

/-- A loop sees no further than its rounds. -/
theorem loop {body : β → Scan (Round β α)} {progress : Progress body}
    (hbody : ∀ b, Nearsighted tail k (body b)) (b : β) :
    Nearsighted tail k (Scan.loop body progress b) where
  lockstep := .loop (fun b => (hbody b).lockstep) b
  shrinks := shrinks_loop (fun b => (hbody b).shrinks) b
  near c d c' d' e a h herror hok := by
    induction hn : d.size using Nat.strongRecOn generalizing b c d with
    | ind n ih =>
      rw [loop_eq] at herror hok
      obtain ⟨r, d₁, hd, hok⟩ := bind_eq_ok hok
      rcases (hbody b).lockstep.beside h hd with ⟨c₁, hc, h₁⟩ | ⟨x, c₁, hc, -⟩
      · rw [bind_ok hc] at herror
        cases r with
        | stop a => cases herror
        | again b' => exact ih _ (hn ▸ progress hd) b' _ _ h₁ herror hok rfl
      · -- the round that fails leaves little, and later rounds leave no more
        have hle : d₁.size ≤ k := (hbody b).near h hc hd
        cases r with
        | stop a =>
          cases hok
          exact hle
        | again b' =>
          exact Nat.le_trans ((shrinks_loop (fun b => (hbody b).shrinks) b').ok hok) hle

end Nearsighted

/-! ## Programs that only read -/

section Programs

variable (hends : Ends tail [])
include hends

theorem nearsighted_peek {i : Nat} (hi : i ≤ k) : Nearsighted tail k (peek i) where
  lockstep := lockstep_peek hends i
  shrinks := shrinks_peek i
  near c d c' d' e a h herror hok := by
    have hd : d'.size ≤ d.size := (shrinks_peek i).ok hok
    unfold Scan.peek onSource at herror
    cases hpeek : Source.peek i c.source with
    | ok o s => simp [hpeek] at herror
    | error x s =>
      have hsize : d.size ≤ i := h.source.size_le_of_peek hpeek
      omega

theorem nearsighted_next : Nearsighted tail k (onSource Source.next) where
  lockstep := lockstep_next hends
  shrinks := .onSource Source.next_size_le
  near c d c' d' e a h herror hok := by
    have hd : d'.size ≤ d.size := (Shrinks.onSource Source.next_size_le).ok hok
    unfold onSource at herror
    cases hnext : Source.next c.source with
    | ok o s => simp [hnext] at herror
    | error x s =>
      have hsize : d.size = 0 := h.source.size_eq_zero_of_next hnext
      omega

theorem nearsighted_advance : Nearsighted tail k advance :=
  .bind (nearsighted_next hends) fun o => by
    cases o with
    | none => exact .pure _
    | some x =>
      refine .bind (.of_ok (lockstep_push x) (.modify fun _ => rfl) fun c => ⟨_, _, rfl⟩) fun _ =>
        .bind (.ite (.pure _) (.ite ?_ (.pure _))) fun breaks =>
        .bind (.of_ok (lockstep_move breaks) (.modify fun _ => rfl) fun c => ⟨_, _, rfl⟩)
          fun _ => .pure _
      exact .bind (nearsighted_peek hends (Nat.zero_le k)) fun _ => .pure _

/-- **Programs see as far as they look.** -/
theorem Reading.nearsighted {m : Scan α} (hm : Reading k m) : Nearsighted tail k m := by
  induction hm with
  | pure a => exact .pure a
  | bind _ _ ihm ihf => exact .bind ihm ihf
  | peek i hi => exact nearsighted_peek hends hi
  | advance => exact nearsighted_advance hends
  | withText htext _ ih => exact .withText htext ih
  | loop b _ ih => exact .loop ih b

end Programs

theorem nearsighted_begin : Nearsighted tail k begin :=
  .of_ok lockstep_begin shrinks_begin fun _ => ⟨_, _, rfl⟩

theorem nearsighted_finish : Nearsighted tail k finish :=
  .of_ok lockstep_finish shrinks_finish fun _ => ⟨_, _, rfl⟩

end Scan

/-! ## Tokens -/

namespace Lexer

open Scan

variable {tail : Feed} {k : Nat}

/-- The last character of a text belongs to the lexeme that begins there. -/
theorem leaves_lexeme : Leaves 1 0 lexeme := by
  rintro d ⟨kind, defect⟩ d' h hd
  by_cases hkind : kind = .endOfInput
  · exact Nat.le_of_eq (exhausted_of_lexeme h hkind)
  · have hlt : d'.size < d.size := takesWhen_lexeme d h hkind
    omega

/-- Takes a token behind its trivia. -/
def tokenBehind (leading : List Trivia) : Scan Token := do
  begin
  let (kind, defect) ← lexeme
  let (text, span) ← finish
  return ⟨kind, text, leading, span, defect⟩

theorem token_eq (started : Bool) :
    token started = (do
      let mark ← markOf started
      let found ← trivia
      tokenBehind (mark ++ found)) := rfl

theorem leaves_tokenBehind (leading : List Trivia) : Leaves 1 0 (tokenBehind leading) :=
  .bind (.of_shrinks shrinks_begin) fun _ => .bind leaves_lexeme fun _ =>
    .bind (.of_shrinks shrinks_finish) fun _ => .of_shrinks (.pure _)

theorem nearsighted_finishTrivia (kind : TriviaKind) (defect : Option Defect) :
    Nearsighted tail k (finishTrivia kind defect) :=
  .bind nearsighted_finish fun _ => .pure _

section Tokens

variable (hends : Ends tail [])
include hends

theorem nearsighted_markOf (started : Bool) : Nearsighted tail 1 (markOf started) :=
  .ite (.pure _) <| .bind nearsighted_begin fun _ =>
    .bind ((reading_eat _).nearsighted hends) fun _ =>
    .ite (.bind (nearsighted_finishTrivia _ _) fun _ => .pure _) (.pure _)

theorem nearsighted_tokenBehind (leading : List Trivia) :
    Nearsighted tail 0 (tokenBehind leading) :=
  .bind nearsighted_begin fun _ => .bind (reading_lexeme.nearsighted hends) fun _ =>
    .bind nearsighted_finish fun _ => .pure _

theorem nearsighted_trivia : Nearsighted tail 1 trivia := by
  refine .bind (.loop (fun found => ?_) #[]) fun _ => .pure _
  refine .bind nearsighted_begin fun _ => .bind (reading_triviaText.nearsighted hends) fun o => ?_
  cases o with
  | none => exact .pure _
  | some v => exact .bind (nearsighted_finishTrivia _ _) fun _ => .pure _

/-- **A fault is met only behind the last character**: where a reader fails to hand out a token, the
token that the text has there reaches to its end. -/
theorem nearsighted_token (started : Bool) : Nearsighted tail 0 (token started) := by
  rw [token_eq]
  refine .bind_of (nearsighted_markOf hends started) (fun mark => ?_) fun mark => ?_
  · exact .bind_of (nearsighted_trivia hends) (fun _ => nearsighted_tokenBehind hends _)
      fun _ => leaves_tokenBehind _
  · exact .bind (.of_shrinks shrinks_trivia) fun _ => leaves_tokenBehind _

end Tokens

end Lexer

end LuaLex
