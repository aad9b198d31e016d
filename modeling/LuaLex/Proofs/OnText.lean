import LuaLex.Proofs.Place
import LuaLex.Proofs.Verdict

/-!
# Runs on a text

A text never fails, so a program that only reads has one outcome on it: an answer, a part of the
text that it takes, and the rest. `Takes` states that outcome without the place at which the text
stands, which a scanner never asks for.

* `Reading.exists_takes`: every program that only reads has such an outcome on every text.
* `Takes.loop_stop`, `Takes.loop_again`: the outcome of a loop, round by round.
* `takes_eatWhile`, `takes_run`: the outcome of a run of characters.
* `begin_onText`, `finish_onText`: what happens at the ends of a span.
-/

namespace LuaLex

/-- A cursor on a text: the span under construction began at `p`, `taken` was taken since then, and
`rest` is ahead. -/
def Cursor.onText (p : Position) (taken rest : List Char) : Cursor :=
  ⟨.text rest, p.behind taken rest, p, String.ofList taken⟩

@[simp] theorem Cursor.text_onText (p : Position) (v rest : List Char) :
    (Cursor.onText p v rest).text = String.ofList v := rfl

@[simp] theorem Cursor.size_onText (p : Position) (v rest : List Char) :
    (Cursor.onText p v rest).size = rest.length := rfl

namespace Scan

open Cursor (onText)

variable {α β : Type}

/-! ## The operations -/

theorem peek_onText (i : Nat) (p : Position) (v rest : List Char) :
    peek i (onText p v rest) = .ok rest[i]? (onText p v rest) := rfl

theorem begin_onText (p : Position) (v rest : List Char) :
    begin (onText p v rest) = .ok () (onText (p.behind v rest) [] rest) := rfl

theorem finish_onText (p : Position) (v rest : List Char) :
    finish (onText p v rest) =
      .ok (String.ofList v, p.spanTo (p.behind v rest)) (onText (p.behind v rest) [] rest) := rfl

theorem peek_text {c : Cursor} {rest : List Char} (hc : c.source = .text rest) (i : Nat) :
    peek i c = .ok rest[i]? c := by
  cases c
  cases hc
  rfl

theorem breaksLine_text {c : Cursor} {rest : List Char} (hc : c.source = .text rest) (x : Char) :
    breaksLine x c = .ok (endsLine x rest.head?) c := by
  unfold breaksLine endsLine
  by_cases hn : x = '\n'
  · subst hn
    rfl
  · have hn' : (x == '\n') = false := by simpa using hn
    rw [if_neg hn, hn', Bool.false_or]
    by_cases hr : x = '\r'
    · subst hr
      rw [if_pos rfl, bind_ok (peek_text hc 0), List.head?_eq_getElem?]
      rfl
    · have hr' : (x == '\r') = false := by simpa using hr
      rw [if_neg hr, hr', Bool.false_and]
      rfl

theorem advance_onText_nil (p : Position) (v : List Char) :
    advance (onText p v []) = .ok none (onText p v []) := rfl

theorem advance_onText_cons (p : Position) (v : List Char) (x : Char) (rest : List Char) :
    advance (onText p v (x :: rest)) = .ok (some x) (onText p (v ++ [x]) rest) := by
  have hnext : onSource Source.next (onText p v (x :: rest)) =
      .ok (some x) ⟨.text rest, p.behind v (x :: rest), p, String.ofList v⟩ := rfl
  have hpush : (modify (Cursor.push x) : Scan Unit)
      ⟨.text rest, p.behind v (x :: rest), p, String.ofList v⟩ =
      .ok () (Cursor.push x ⟨.text rest, p.behind v (x :: rest), p, String.ofList v⟩) := rfl
  have htext : (String.ofList v).push x = String.ofList (v ++ [x]) := by
    rw [String.ofList_append, ← String.singleton_eq_ofList, String.push_eq_append]
  unfold advance
  rw [bind_ok hnext]
  simp only
  rw [bind_ok hpush, bind_ok (breaksLine_text rfl x)]
  unfold onText
  rw [Position.behind_append, ← htext]
  show EStateM.Result.ok _ _ = EStateM.Result.ok _ _
  simp only [Cursor.push, Cursor.move, Position.behind, Position.step, List.nil_append]
  split <;> rfl

/-! ## Outcomes -/

/-- With `v` taken before and `cs` ahead, the program `m` answers `a`, takes `w` and leaves `rest`,
wherever the text stands. -/
structure Takes (m : Scan α) (v cs : List Char) (a : α) (w rest : List Char) : Prop where
  split : cs = w ++ rest
  run : ∀ p, m (onText p v cs) = .ok a (onText p (v ++ w) rest)

namespace Takes

variable {m : Scan α} {f : α → Scan β} {v cs w w' mid rest : List Char} {a : α} {b : β}

theorem pure (a : α) (v cs : List Char) : Takes (Pure.pure a : Scan α) v cs a [] cs where
  split := rfl
  run p := by
    rw [List.append_nil]
    rfl

theorem bind (hm : Takes m v cs a w mid) (hf : Takes (f a) (v ++ w) mid b w' rest) :
    Takes (m >>= f) v cs b (w ++ w') rest where
  split := by rw [hm.split, hf.split, List.append_assoc]
  run p := by rw [bind_ok (hm.run p), hf.run p, List.append_assoc]

/-- Behind `m` nothing more is taken. -/
theorem bind_still (hm : Takes m v cs a w mid) (hf : Takes (f a) (v ++ w) mid b [] mid) :
    Takes (m >>= f) v cs b w mid := by
  have h := hm.bind hf
  rwa [List.append_nil] at h

/-- Behind a program that takes nothing, the rest has the outcome of the whole. -/
theorem bind_iff (hm : Takes m v cs a [] cs) :
    Takes (m >>= f) v cs b w rest ↔ Takes (f a) v cs b w rest := by
  have hrun : ∀ p, (m >>= f) (onText p v cs) = f a (onText p v cs) := fun p => by
    rw [bind_ok (hm.run p), List.append_nil]
  constructor
  · intro h
    exact ⟨h.split, fun p => by rw [← hrun, h.run p]⟩
  · intro h
    exact ⟨h.split, fun p => by rw [hrun, h.run p]⟩

theorem peek (i : Nat) (v cs : List Char) : Takes (Scan.peek i) v cs cs[i]? [] cs where
  split := rfl
  run p := by rw [List.append_nil, peek_onText]

theorem current (v cs : List Char) : Takes Scan.current v cs cs.head? [] cs := by
  rw [List.head?_eq_getElem?]
  exact .peek 0 v cs

theorem advance_cons (v : List Char) (x : Char) (rest : List Char) :
    Takes Scan.advance v (x :: rest) (some x) [x] rest where
  split := rfl
  run p := advance_onText_cons p v x rest

theorem advance_nil (v : List Char) : Takes Scan.advance v [] none [] [] where
  split := rfl
  run p := by rw [List.append_nil, advance_onText_nil]

/-- A run has one outcome. -/
theorem unique {a' : α} {rest' : List Char} (h : Takes m v cs a w rest)
    (h' : Takes m v cs a' w' rest') : a = a' ∧ w = w' ∧ rest = rest' := by
  have e := (h.run .origin).symm.trans (h'.run .origin)
  injection e with ha hc
  have hsource := congrArg Cursor.source hc
  simp only [onText, Source.text.injEq] at hsource
  subst hsource
  exact ⟨ha, List.append_cancel_right (h.split.symm.trans h'.split), rfl⟩

theorem eat_cons (v : List Char) (x : Char) (rest : List Char) :
    Takes (eat x) v (x :: rest) true [x] rest := by
  refine (bind_iff (.current v (x :: rest))).mpr ?_
  rw [List.head?_cons, if_pos rfl]
  exact (Takes.advance_cons v x rest).bind (.pure true _ _)

theorem eat_of_ne {x : Char} {cs : List Char} (v : List Char) (h : cs.head? ≠ some x) :
    Takes (eat x) v cs false [] cs := by
  refine (bind_iff (.current v cs)).mpr ?_
  rw [if_neg h]
  exact .pure false v cs

theorem answers {P : α → Prop} (h : Takes m v cs a w rest) (hm : Answers P m) : P a :=
  hm (h.run .origin)

/-- A program that leaves less to read has taken something. -/
theorem ne_nil {P : α → Prop} (h : Takes m v cs a w rest)
    (hm : TakesWhen P (onText .origin v cs) m) (ha : P a) : w ≠ [] := by
  rintro rfl
  have := hm (h.run .origin) ha
  simp [h.split] at this

end Takes

/-! ## Loops -/

section Loops

variable {body : β → Scan (Round β α)} {progress : Progress body} {b b' : β} {a : α}
  {v cs w w' mid rest : List Char}

/-- A round that stops has the outcome of the loop. -/
theorem Takes.loop_stop (h : Takes (body b) v cs (.stop a) w rest) :
    Takes (loop body progress b) v cs a w rest := by
  rw [loop_eq]
  exact h.bind_still (.pure a (v ++ w) rest)

/-- A round that does not stop is followed by the loop from there on. -/
theorem Takes.loop_again (h : Takes (body b) v cs (.again b') w mid)
    (h' : Takes (loop body progress b') (v ++ w) mid a w' rest) :
    Takes (loop body progress b) v cs a (w ++ w') rest := by
  rw [loop_eq]
  exact h.bind h'

end Loops

/-! ## Every text has an outcome -/

theorem exists_takes_loop {body : β → Scan (Round β α)} {progress : Progress body}
    (hbody : ∀ b v cs, ∃ r w rest, Takes (body b) v cs r w rest) (b : β) (v cs : List Char) :
    ∃ a w rest, Takes (loop body progress b) v cs a w rest := by
  induction hn : cs.length using Nat.strongRecOn generalizing b v cs with
  | ind n ih =>
    obtain ⟨r, w, mid, h⟩ := hbody b v cs
    cases r with
    | stop a => exact ⟨a, w, mid, h.loop_stop⟩
    | again b' =>
      -- the round has made progress, so what is ahead is shorter
      have hlt : mid.length < n := by
        have := progress (h.run .origin)
        rw [Cursor.size_onText, Cursor.size_onText] at this
        omega
      obtain ⟨a, w', rest, h'⟩ := ih _ hlt b' (v ++ w) mid rfl
      exact ⟨a, w ++ w', rest, h.loop_again h'⟩

/-- **A program that only reads has an outcome on every text**, whatever was taken before. -/
theorem Reading.exists_takes {k : Nat} {m : Scan α} (hm : Reading k m) (v cs : List Char) :
    ∃ a w rest, Takes m v cs a w rest := by
  induction hm generalizing v cs with
  | pure a => exact ⟨a, [], cs, .pure a v cs⟩
  | bind _ _ ihm ihf =>
    obtain ⟨a, w, mid, h⟩ := ihm v cs
    obtain ⟨b, w', rest, h'⟩ := ihf a (v ++ w) mid
    exact ⟨b, w ++ w', rest, h.bind h'⟩
  | peek i _ => exact ⟨_, [], cs, .peek i v cs⟩
  | advance =>
    cases cs with
    | nil => exact ⟨none, [], [], .advance_nil v⟩
    | cons x rest => exact ⟨some x, [x], rest, .advance_cons v x rest⟩
  | @withText _ f hf _ ih =>
    obtain ⟨a, w, rest, h⟩ := ih (onText .origin v cs) v cs
    refine ⟨a, w, rest, h.split, fun p => ?_⟩
    have htext : f (onText p v cs) = f (onText .origin v cs) := hf _ _ rfl
    show f (onText p v cs) (onText p v cs) = _
    rw [htext, h.run p]
  | loop b _ ih => exact exists_takes_loop ih b v cs

/-! ## Runs of characters -/

theorem takes_eatRounds (p : Char → Bool) (count : Nat) (v cs : List Char) :
    Takes (loop (eatRound p) (progress_eatRound p) count) v cs (count + (cs.takeWhile p).length)
      (cs.takeWhile p) (cs.dropWhile p) := by
  induction cs generalizing count v with
  | nil =>
    refine Takes.loop_stop ?_
    exact (Takes.bind_iff (.current v [])).mpr (.pure _ _ _)
  | cons c cs ih =>
    by_cases hc : p c = true
    · rw [List.takeWhile_cons_of_pos hc, List.dropWhile_cons_of_pos hc, List.length_cons,
        Nat.add_comm _ 1, ← Nat.add_assoc]
      refine Takes.loop_again (w := [c]) ?_ (ih (count + 1) (v ++ [c]))
      refine (Takes.bind_iff (.current v (c :: cs))).mpr ?_
      simp only [List.head?_cons]
      rw [if_pos hc]
      exact (Takes.advance_cons v c cs).bind (.pure _ _ _)
    · rw [List.takeWhile_cons_of_neg hc, List.dropWhile_cons_of_neg hc]
      refine Takes.loop_stop ?_
      refine (Takes.bind_iff (.current v (c :: cs))).mpr ?_
      simp only [List.head?_cons]
      rw [if_neg hc]
      exact .pure _ _ _

/-- **A run of characters of a class** is taken to its end. -/
theorem takes_eatWhile (p : Char → Bool) (v cs : List Char) :
    Takes (eatWhile p) v cs (cs.takeWhile p).length (cs.takeWhile p) (cs.dropWhile p) := by
  have h := takes_eatRounds p 0 v cs
  rwa [Nat.zero_add] at h

/-- A run that cannot go on is taken as a whole. -/
theorem takeWhile_run {p : Char → Bool} {w rest : List Char} (hw : ∀ c ∈ w, p c = true)
    (hrest : ∀ c, rest.head? = some c → p c = false) :
    (w ++ rest).takeWhile p = w ∧ (w ++ rest).dropWhile p = rest := by
  rw [List.takeWhile_append_of_pos hw, List.dropWhile_append_of_pos hw]
  cases rest with
  | nil => simp
  | cons c rest => simp [hrest c rfl]

theorem takes_run {p : Char → Bool} {w rest : List Char} (hw : ∀ c ∈ w, p c = true)
    (hrest : ∀ c, rest.head? = some c → p c = false) (v : List Char) :
    Takes (eatWhile p) v (w ++ rest) w.length w rest := by
  have h := takes_eatWhile p v (w ++ rest)
  rwa [(takeWhile_run hw hrest).1, (takeWhile_run hw hrest).2] at h

/-- A program may look at the cursor. -/
theorem Takes.get {f : Cursor → Scan α} {v cs w rest : List Char} {a : α}
    (h : ∀ p, Takes (f (onText p v cs)) v cs a w rest) :
    Takes ((MonadState.get : Scan Cursor) >>= f) v cs a w rest :=
  ⟨(h .origin).split, fun p => (h p).run p⟩

end Scan

end LuaLex
