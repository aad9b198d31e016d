import LuaLex.Proofs.Reading

/-!
# Reading in lockstep

A reader and a text that agree as far as the reader delivers characters. Behind the common
characters the reader either ends, and so does the text, or it has a fault, and the text may go on
with anything. Programs cannot tell the two apart until they meet that fault: run on both, a program
gives the same answer on both, or it ends with the fault on the reader.

* `Source.Mirrors`, `Cursor.InStep`: the relation between the two.
* `Lockstep m`: the program `m` keeps it, or meets the fault. The scanners do, since looking ahead
  and taking a character do (`Reading.lockstep`).
* `lockstep_token`: taking a whole token does.
-/

namespace LuaLex

/-! ## Sources in step -/

/-- What may stand behind the common characters: on both sides nothing, or on the side of the
reader a fault. -/
def Ends (tail : Feed) (beyond : List Char) : Prop :=
  (tail = [] ∧ beyond = []) ∨ ∃ e more, tail = .error e :: more

namespace Source

/-- The two sources hand out the same characters, those in the queue of the reader first. Behind
them stands `tail` in the reader and `beyond` in the text. -/
def Mirrors (tail : Feed) (beyond : List Char) (s t : Source) : Prop :=
  ∃ ahead chars, s = reader ahead (chars.map .ok ++ tail) ∧ t = text (ahead ++ chars ++ beyond)

variable {tail : Feed} {beyond : List Char}

/-- Filling the queue moves common characters into it. It stops short of the wanted number only at
the end, and fails only with the fault behind the common characters. -/
theorem fill_mirrors (hends : Ends tail beyond) (n : Nat) (ahead chars : List Char) :
    (∃ queue chars', fill n ahead (chars.map .ok ++ tail) =
        .ok queue (reader queue (chars'.map .ok ++ tail)) ∧ queue ++ chars' = ahead ++ chars ∧
        (n ≤ queue.length ∨ chars' = [] ∧ beyond = [])) ∨
      ∃ e s, fill n ahead (chars.map .ok ++ tail) = .error e s ∧ tail.head? = some (.error e) := by
  induction chars generalizing ahead with
  | nil =>
    rcases hends with ⟨rfl, hbeyond⟩ | ⟨e, more, rfl⟩
    · exact Or.inl ⟨ahead, [], rfl, rfl, Or.inr ⟨rfl, hbeyond⟩⟩
    · by_cases hn : n ≤ ahead.length
      · exact Or.inl ⟨ahead, [], by simp [fill, hn], rfl, Or.inl hn⟩
      · exact Or.inr ⟨e, reader ahead more, by simp [fill, hn], rfl⟩
  | cons c chars ih =>
    by_cases hn : n ≤ ahead.length
    · exact Or.inl ⟨ahead, c :: chars, by simp [fill, hn], rfl, Or.inl hn⟩
    · have hstep : fill n ahead ((c :: chars).map .ok ++ tail) =
          fill n (ahead ++ [c]) (chars.map .ok ++ tail) := by
        simp [fill, hn]
      rw [hstep]
      simpa using ih (ahead ++ [c])

/-- Looking ahead shows the same character in both sources. -/
theorem Mirrors.peek (hends : Ends tail beyond) {s t : Source} (h : Mirrors tail beyond s t)
    (i : Nat) :
    (∃ o s', Source.peek i s = .ok o s' ∧ Source.peek i t = .ok o t ∧ Mirrors tail beyond s' t) ∨
      ∃ e s', Source.peek i s = .error e s' ∧ tail.head? = some (.error e) := by
  obtain ⟨ahead, chars, rfl, rfl⟩ := h
  rcases fill_mirrors hends (i + 1) ahead chars with
    ⟨queue, chars', hfill, hsplit, hlen⟩ | ⟨e, s', hfill, he⟩
  · have hi : queue[i]? = (ahead ++ chars ++ beyond)[i]? := by
      rw [← hsplit]
      rcases hlen with hlen | ⟨rfl, rfl⟩
      · rw [List.append_assoc, List.getElem?_append_left hlen]
      · rw [List.append_nil, List.append_nil]
    refine Or.inl ⟨queue[i]?, _, ?_, ?_, queue, chars', rfl, by rw [hsplit]⟩
    · simp only [Source.peek, hfill]
    · simp only [Source.peek, hi]
  · refine Or.inr ⟨e, s', ?_, he⟩
    simp only [Source.peek, hfill]

/-- Both sources hand out the same character. -/
theorem Mirrors.next (hends : Ends tail beyond) {s t : Source} (h : Mirrors tail beyond s t) :
    (∃ o s' t', Source.next s = .ok o s' ∧ Source.next t = .ok o t' ∧
        Mirrors tail beyond s' t') ∨
      ∃ e s', Source.next s = .error e s' ∧ tail.head? = some (.error e) := by
  obtain ⟨ahead, chars, rfl, rfl⟩ := h
  cases ahead with
  | cons c ahead => exact Or.inl ⟨some c, _, _, rfl, rfl, ahead, chars, rfl, rfl⟩
  | nil =>
    cases chars with
    | cons c chars => exact Or.inl ⟨some c, _, _, rfl, rfl, [], chars, rfl, rfl⟩
    | nil =>
      rcases hends with ⟨rfl, rfl⟩ | ⟨e, more, rfl⟩
      · exact Or.inl ⟨none, _, _, rfl, rfl, [], [], rfl, rfl⟩
      · exact Or.inr ⟨e, _, rfl, rfl⟩

end Source

/-- Two cursors that differ in their sources only, and these are in step. -/
structure Cursor.InStep (tail : Feed) (beyond : List Char) (c d : Cursor) : Prop where
  source : Source.Mirrors tail beyond c.source d.source
  position : c.position = d.position
  start : c.start = d.start
  text : c.text = d.text

namespace Scan

/-! ## Programs in step -/

section Programs

variable {tail : Feed} {beyond : List Char} {α β : Type}

/-- On two cursors in step the program gives the same answer and leaves them in step, or it fails
on the reader with the fault behind the common characters. -/
def Lockstep (tail : Feed) (beyond : List Char) (m : Scan α) : Prop :=
  ∀ ⦃c d⦄, Cursor.InStep tail beyond c d →
    (∃ a c' d', m c = .ok a c' ∧ m d = .ok a d' ∧ Cursor.InStep tail beyond c' d') ∨
      ∃ e c', m c = .error e c' ∧ tail.head? = some (.error e)

namespace Lockstep

/-- Beside a run on the text, the run on the reader gives the same answer or meets the fault. -/
theorem beside {m : Scan α} (hm : Lockstep tail beyond m) {c d d' : Cursor} {a : α}
    (h : Cursor.InStep tail beyond c d) (hd : m d = .ok a d') :
    (∃ c', m c = .ok a c' ∧ Cursor.InStep tail beyond c' d') ∨
      ∃ e c', m c = .error e c' ∧ tail.head? = some (.error e) := by
  rcases hm h with ⟨b, c', d₁, hc, hd₁, h'⟩ | hfault
  · obtain ⟨rfl, rfl⟩ : a = b ∧ d' = d₁ := by simpa using hd.symm.trans hd₁
    exact Or.inl ⟨c', hc, h'⟩
  · exact Or.inr hfault

theorem pure (a : α) : Lockstep tail beyond (Pure.pure a : Scan α) :=
  fun c d h => Or.inl ⟨a, c, d, rfl, rfl, h⟩

theorem bind {m : Scan α} {f : α → Scan β} (hm : Lockstep tail beyond m)
    (hf : ∀ a, Lockstep tail beyond (f a)) : Lockstep tail beyond (m >>= f) := by
  intro c d h
  rcases hm h with ⟨a, c', d', hc, hd, h'⟩ | ⟨e, c', hc, he⟩
  · rw [bind_ok hc, bind_ok hd]
    exact hf a h'
  · exact Or.inr ⟨e, c', bind_error hc, he⟩

theorem ite {p : Prop} [Decidable p] {m n : Scan α} (hm : Lockstep tail beyond m)
    (hn : Lockstep tail beyond n) : Lockstep tail beyond (if p then m else n) := by
  split <;> assumption

/-- What a program does to the cursor without its source. -/
theorem modifyGet {f : Cursor → α × Cursor}
    (hf : ∀ c d, Cursor.InStep tail beyond c d →
      (f c).1 = (f d).1 ∧ Cursor.InStep tail beyond (f c).2 (f d).2) :
    Lockstep tail beyond (MonadStateOf.modifyGet f : Scan α) := by
  intro c d h
  obtain ⟨ha, h'⟩ := hf c d h
  exact Or.inl ⟨(f c).1, (f c).2, (f d).2, rfl, by rw [ha]; rfl, h'⟩

theorem withText {f : Cursor → Scan α} (htext : ∀ c d, c.text = d.text → f c = f d)
    (hf : ∀ c, Lockstep tail beyond (f c)) : Lockstep tail beyond ((get : Scan Cursor) >>= f) := by
  intro c d h
  show (∃ a c' d', f c c = .ok a c' ∧ f d d = .ok a d' ∧ _) ∨ ∃ e c', f c c = .error e c' ∧ _
  rw [← htext c d h.text]
  exact hf c h

/-- A loop is in step if its rounds are. -/
theorem loop {body : β → Scan (Round β α)} {progress : Progress body}
    (hbody : ∀ b, Lockstep tail beyond (body b)) (b : β) :
    Lockstep tail beyond (Scan.loop body progress b) := by
  intro c d h
  induction hn : c.size using Nat.strongRecOn generalizing b c d with
  | ind n ih =>
    rw [loop_eq]
    rcases hbody b h with ⟨r, c', d', hc, hd, h'⟩ | ⟨e, c', hc, he⟩
    · rw [bind_ok hc, bind_ok hd]
      cases r with
      | stop a => exact pure a h'
      | again b' => exact ih _ (hn ▸ progress hc) b' h' rfl
    · exact Or.inr ⟨e, c', bind_error hc, he⟩

end Lockstep

theorem lockstep_peek (hends : Ends tail beyond) (i : Nat) : Lockstep tail beyond (peek i) := by
  intro c d h
  rcases h.source.peek hends i with ⟨o, s', hs, ht, h'⟩ | ⟨e, s', hs, he⟩
  · refine Or.inl ⟨o, { c with source := s' }, d, ?_, ?_, h', h.position, h.start, h.text⟩
    · simp only [peek, onSource, hs]
    · simp only [peek, onSource, ht]
  · refine Or.inr ⟨e, { c with source := s' }, ?_, he⟩
    simp only [peek, onSource, hs]

theorem lockstep_next (hends : Ends tail beyond) : Lockstep tail beyond (onSource Source.next) := by
  intro c d h
  rcases h.source.next hends with ⟨o, s', t', hs, ht, h'⟩ | ⟨e, s', hs, he⟩
  · refine Or.inl ⟨o, { c with source := s' }, { d with source := t' }, ?_, ?_, h', h.position,
      h.start, h.text⟩
    · simp only [onSource, hs]
    · simp only [onSource, ht]
  · refine Or.inr ⟨e, { c with source := s' }, ?_, he⟩
    simp only [onSource, hs]

theorem lockstep_breaksLine (hends : Ends tail beyond) (x : Char) :
    Lockstep tail beyond (breaksLine x) :=
  .ite (.pure _) (.ite (.bind (lockstep_peek hends 0) fun _ => .pure _) (.pure _))

theorem lockstep_push (x : Char) : Lockstep tail beyond (modify (Cursor.push x)) :=
  .modifyGet fun c d h => by
    refine ⟨rfl, h.source, ?_, h.start, ?_⟩
    · simp only [Cursor.push, h.position]
    · simp only [Cursor.push, h.text]

theorem lockstep_move (breaks : Bool) : Lockstep tail beyond (modify (Cursor.move breaks)) :=
  .modifyGet fun c d h => by
    refine ⟨rfl, h.source, ?_, h.start, h.text⟩
    simp only [Cursor.move, h.position]

/-- Taking a character stays in step, also where a carriage return asks for the character behind
it. -/
theorem lockstep_advance (hends : Ends tail beyond) : Lockstep tail beyond advance :=
  .bind (lockstep_next hends) fun o => by
    cases o with
    | none => exact .pure _
    | some x =>
      exact .bind (lockstep_push x) fun _ =>
        .bind (lockstep_breaksLine hends x) fun breaks =>
        .bind (lockstep_move breaks) fun _ => .pure _

/-- **Programs that only read stay in step.** -/
theorem Reading.lockstep (hends : Ends tail beyond) {k : Nat} {m : Scan α} (hm : Reading k m) :
    Lockstep tail beyond m := by
  induction hm with
  | pure a => exact .pure a
  | bind _ _ ihm ihf => exact .bind ihm ihf
  | peek i _ => exact lockstep_peek hends i
  | advance => exact lockstep_advance hends
  | withText htext _ ih => exact .withText htext ih
  | loop b _ ih => exact .loop ih b

theorem lockstep_begin : Lockstep tail beyond begin :=
  .modifyGet fun _ _ h => ⟨rfl, h.source, h.position, h.position, rfl⟩

theorem lockstep_finish : Lockstep tail beyond finish :=
  .modifyGet fun _ _ h => by
    refine ⟨?_, h.source, h.position, h.position, rfl⟩
    simp only [h.position, h.start, h.text]

end Programs

end Scan

/-! ## Whole tokens -/

namespace Lexer

open Scan

variable {tail : Feed} {beyond : List Char}

theorem lockstep_finishTrivia (kind : TriviaKind) (defect : Option Defect) :
    Lockstep tail beyond (finishTrivia kind defect) :=
  .bind lockstep_finish fun _ => .pure _

theorem lockstep_byteOrderMark (hends : Ends tail beyond) : Lockstep tail beyond byteOrderMark :=
  .bind lockstep_begin fun _ => .bind ((reading_eat (k := 0) _).lockstep hends) fun _ =>
    .ite (.bind (lockstep_finishTrivia _ _) fun _ => .pure _) (.pure _)

theorem lockstep_trivia (hends : Ends tail beyond) : Lockstep tail beyond trivia := by
  refine .bind (.loop (fun found => ?_) #[]) fun _ => .pure _
  refine .bind lockstep_begin fun _ => .bind (reading_triviaText.lockstep hends) fun o => ?_
  cases o with
  | none => exact .pure _
  | some r => exact .bind (lockstep_finishTrivia _ _) fun _ => .pure _

/-- **Taking a token stays in step.** -/
theorem lockstep_token (hends : Ends tail beyond) (started : Bool) :
    Lockstep tail beyond (token started) :=
  .bind (.ite (.pure _) (lockstep_byteOrderMark hends)) fun _ =>
    .bind (lockstep_trivia hends) fun _ => .bind lockstep_begin fun _ =>
    .bind (reading_lexeme.lockstep hends) fun _ => .bind lockstep_finish fun _ => .pure _

end Lexer

end LuaLex
