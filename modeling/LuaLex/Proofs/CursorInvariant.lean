import Mathlib.Data.List.DropRight
import LuaLex.Proofs.Bookkeeping

/-!
# What a cursor keeps account of

A cursor on any source is used by any operations in any order, and a fault may end each of them
midway. Offset, text and span are exact behind all of them. Line and column are exact too unless a
carriage return was taken and the look at the character behind it ended in a fault.

* `Cursor.Operation`: the operations, and the cursor each of them leads to.
* `Cursor.Slips`: `advance` takes a carriage return and then fails. `Cursor.SlipsIn` says that this
  happens in a run.
* `Cursor.Accounts`: what holds of a cursor whatever happened to it. Every operation keeps it: those
  that take something (`Accounts.took`) and those that begin a new span (`Accounts.marked`).
* `Cursor.Walked`: from one cursor to another the place moves as the characters tell. An operation
  that does not slip does that (`walked_after`).
* `Cursor.not_slipsIn`: nothing slips where the source holds no fault, as no text does.
* `Cursor.keeps_account`: the account of every run.
-/

namespace LuaLex

namespace Scan

/-- As `eatWhile`, for a predicate with a memory: `p n` is asked about the character behind the
first `n`. In one run whatever the predicate remembers then depends on `n` only. -/
def eatWhileAt (p : Nat → Char → Bool) : Scan Nat :=
  loop (fun n => eatRound (p n) n) (fun n _ _ _ h => progress_eatRound (p n) h) 0

theorem eatWhileAt_const (p : Char → Bool) : eatWhileAt (fun _ => p) = eatWhile p := rfl

theorem reading_eatWhileAt {k : Nat} (p : Nat → Char → Bool) : Reading k (eatWhileAt p) :=
  .loop 0 fun n => reading_eatRound (p n) n

end Scan

/-! ## Counting lines and columns -/

namespace Position

/-- The line and the column of `p` are those behind the first text in front of the second, counted
from one. -/
structure Counts (p : Position) (w rest : List Char) : Prop where
  line_eq : p.line = 1 + lineBreaks (w ++ rest) w.length
  /-- The column counts the characters `part` behind the last place where a line begins. -/
  column_eq : ∃ before part, w = before ++ part ∧ LineStart before (part ++ rest) ∧
    lineBreaks (part ++ rest) part.length = 0 ∧ p.column = 1 + part.length
  /-- Neither counter outgrows the number of characters by more than one; while these are fewer than
  `2 ^ 32 - 1`, counters of 32 bits hold them. -/
  line_le : p.line ≤ 1 + w.length
  column_le : p.column ≤ 1 + w.length

theorem counts_behind (w rest : List Char) : (origin.behind w rest).Counts w rest where
  line_eq := behind_line _ _ _
  column_eq := exists_lineStart rfl w rest
  line_le := behind_line_le _ _ _
  column_le := behind_column_le (Nat.le_refl 1) _ _

end Position

namespace Cursor

open Scan (Keeps Meets Reading advanced took_peek bind_ok bind_error eatRound eatWhileAt)

/-! ## Operations -/

/-- The operations of a cursor. -/
inductive Operation where
  | current
  | peek (i : Nat)
  | atEnd
  | advance
  | eat (expected : Char)
  | eatWhile (p : Nat → Char → Bool)
  | begin
  | finish

namespace Operation

/-- The cursor that an operation leads to, whether it succeeds or fails. -/
def after : Operation → Cursor → Cursor
  | current, c => leftBy (Scan.current c)
  | peek i, c => leftBy (Scan.peek i c)
  | atEnd, c => leftBy (Scan.atEnd c)
  | advance, c => leftBy (Scan.advance c)
  | eat expected, c => leftBy (Scan.eat expected c)
  | eatWhile p, c => leftBy (Scan.eatWhileAt p c)
  | begin, c => leftBy (Scan.begin c)
  | finish, c => leftBy (Scan.finish c)

/-- Whether the operation begins a new span. -/
def marks : Operation → Bool
  | begin => true
  | finish => true
  | _ => false

end Operation

/-- The cursor that operations lead to, one after the other; a failed one does not keep the next
from being run. -/
def afterAll (ops : List Operation) (c : Cursor) : Cursor :=
  ops.foldl (fun d op => op.after d) c

theorem afterAll_concat (ops : List Operation) (op : Operation) (c : Cursor) :
    afterAll (ops ++ [op]) c = op.after (afterAll ops c) :=
  List.foldl_concat _ _ _ _

/-- The operations up to the last one that began a new span, this one included. -/
def upToMark (ops : List Operation) : List Operation :=
  ops.rdropWhile fun op => !op.marks

/-- A new span is begun without taking anything. -/
theorem after_of_marks {op : Operation} (h : op.marks = true) (c : Cursor) :
    op.after c = { c with start := c.position, text := "" } := by
  cases op with
  | begin => rfl
  | finish => rfl
  | _ => cases h

/-- All other operations only look ahead and take characters. -/
theorem exists_reading {op : Operation} (h : op.marks = false) :
    ∃ (α : Type) (k : Nat) (m : Scan α), Reading k m ∧ ∀ c, op.after c = leftBy (m c) := by
  cases op with
  | current => exact ⟨_, 0, _, .current, fun _ => rfl⟩
  | peek i => exact ⟨_, i, _, .peek i (Nat.le_refl i), fun _ => rfl⟩
  | atEnd => exact ⟨_, 0, _, .bind .current fun _ => .pure _, fun _ => rfl⟩
  | advance => exact ⟨_, 0, _, .advance, fun _ => rfl⟩
  | eat expected => exact ⟨_, 0, _, Scan.reading_eat expected, fun _ => rfl⟩
  | eatWhile p => exact ⟨_, 0, _, Scan.reading_eatWhileAt p, fun _ => rfl⟩
  | begin => cases h
  | finish => cases h

/-- They account for what they take, however they end. -/
theorem took_after {op : Operation} (h : op.marks = false) (c : Cursor) :
    ∃ w, Took w c (op.after c) := by
  obtain ⟨α, k, m, hm, hafter⟩ := exists_reading h
  rw [hafter]
  exact hm.took c

/-! ## What holds in any case -/

/-- What a cursor on the source accounts for: it took `v` before its span was begun, at the cursor
`mark`, and `w` since. -/
structure Accounts (source : Source) (mark : Cursor) (v w : List Char) (c : Cursor) : Prop where
  /-- What was taken and what is left make up the source. -/
  chars_eq : source.chars = v ++ w ++ c.source.chars
  mark_chars : mark.source.chars = w ++ c.source.chars
  offset_eq : c.position.offset = byteLength (v ++ w)
  text_eq : c.text.toList = w
  start_eq : c.start = mark.position
  start_add : c.start.offset + c.text.utf8ByteSize = c.position.offset

namespace Accounts

variable {source : Source} {mark c : Cursor} {v w : List Char}

theorem ofSource (source : Source) :
    Accounts source (.ofSource source) [] [] (.ofSource source) := ⟨rfl, rfl, rfl, rfl, rfl, rfl⟩

/-- What is taken goes to the span under construction. -/
theorem took {x : List Char} {d : Cursor} (h : Accounts source mark v w c) (ht : Took x c d) :
    Accounts source mark v (w ++ x) d where
  chars_eq := by rw [h.chars_eq, ht.chars, ← List.append_assoc, ← List.append_assoc]
  mark_chars := by rw [h.mark_chars, ht.chars, List.append_assoc]
  offset_eq := by rw [ht.offset, h.offset_eq, ← byteLength_append, List.append_assoc]
  text_eq := by rw [ht.text, h.text_eq]
  start_eq := ht.start.trans h.start_eq
  start_add := by
    rw [← byteLength_toList, ht.text, byteLength_append, ht.start, ht.offset, ← h.start_add,
      byteLength_toList, Nat.add_assoc]

/-- A new span begins behind all that was taken. -/
theorem marked (h : Accounts source mark v w c) {d : Cursor}
    (hd : d = { c with start := c.position, text := "" }) : Accounts source d (v ++ w) [] d := by
  subst hd
  constructor
  case chars_eq => rw [List.append_nil, h.chars_eq]
  case mark_chars => rfl
  case offset_eq => rw [List.append_nil, ← h.offset_eq]
  case text_eq => rfl
  case start_eq => rfl
  case start_add => rfl

end Accounts

/-- **Whatever is done with a cursor, it accounts for what it took.** -/
theorem accounts_afterAll (source : Source) (ops : List Operation) :
    ∃ v w, Accounts source (afterAll (upToMark ops) (.ofSource source)) v w
      (afterAll ops (.ofSource source)) := by
  induction ops using List.reverseRecOn with
  | nil => exact ⟨[], [], .ofSource source⟩
  | append_singleton ops op ih =>
    obtain ⟨v, w, h⟩ := ih
    cases hop : op.marks with
    | true =>
      have hmark : upToMark (ops ++ [op]) = ops ++ [op] :=
        List.rdropWhile_concat_neg _ _ _ (by simp [hop])
      rw [hmark, afterAll_concat]
      exact ⟨v ++ w, [], h.marked (after_of_marks hop _)⟩
    | false =>
      have hmark : upToMark (ops ++ [op]) = upToMark ops :=
        List.rdropWhile_concat_pos _ _ _ (by simp [hop])
      obtain ⟨x, hx⟩ := took_after hop (afterAll ops (.ofSource source))
      rw [hmark, afterAll_concat]
      exact ⟨v, w ++ x, h.took hx⟩

/-! ## Line and column -/

/-- `advance` takes a carriage return, and then fails to look at the character behind it. -/
def Slips (c : Cursor) : Prop :=
  ∃ e d, Scan.advance c = .error e d ∧ c.source.chars = '\r' :: d.source.chars

/-- In a run of `eatWhileAt` that goes on behind the first `n` characters, `advance` slips. -/
inductive EatSlips (p : Nat → Char → Bool) : Nat → Cursor → Prop
  | here {n : Nat} {c d : Cursor} {x : Char} :
      Scan.current c = .ok (some x) d → p n x = true → Slips d → EatSlips p n c
  | later {n n' : Nat} {c d : Cursor} :
      eatRound (p n) n c = .ok (.again n') d → EatSlips p n' d → EatSlips p n c

/-- In the run of an operation `advance` slips. -/
def Operation.Slips : Operation → Cursor → Prop
  | advance, c => c.Slips
  | eat expected, c => ∃ d, Scan.current c = .ok (some expected) d ∧ d.Slips
  | eatWhile p, c => EatSlips p 0 c
  | _, _ => False

/-- One of the operations slips where its turn comes. -/
def SlipsIn (ops : List Operation) (c : Cursor) : Prop :=
  ∃ front op back, ops = front ++ op :: back ∧ op.Slips (afterAll front c)

/-- From `c` to `d` the characters `w` were taken, and the place moved as they tell. -/
structure Walked (w : List Char) (c d : Cursor) : Prop where
  chars : c.source.chars = w ++ d.source.chars
  position : d.position = c.position.behind w d.source.chars

namespace Walked

theorem refl (c : Cursor) : Walked [] c c := ⟨rfl, rfl⟩

theorem trans {v w : List Char} {c d e : Cursor} (h : Walked v c d) (h' : Walked w d e) :
    Walked (v ++ w) c e where
  chars := by rw [h.chars, h'.chars, List.append_assoc]
  position := by rw [h'.position, h.position, h'.chars, Position.behind_append]

end Walked

theorem walked_peek (i : Nat) : Keeps (Walked []) (Scan.peek i) := by
  intro c
  refine ⟨(took_peek i c).chars, ?_⟩
  unfold Scan.peek Scan.onSource
  cases Source.peek i c.source <;> rfl

/-- Only where it slips, `advance` takes a character that it does not count. -/
theorem walked_advance {c : Cursor} (h : ¬c.Slips) :
    ∃ w, Walked w c (leftBy (Scan.advance c)) := by
  have hadvanced := advanced c
  cases hrun : Scan.advance c with
  | ok o d =>
    rw [hrun] at hadvanced
    cases hadvanced with
    | ended htook hplace => exact ⟨[], htook.chars, hplace⟩
    | taken htook hplace => exact ⟨_, htook.chars, hplace⟩
  | error e d =>
    rw [hrun] at hadvanced
    cases hadvanced with
    | failed htook hplace => exact ⟨[], htook.chars, hplace⟩
    | slipped _ htook _ => exact absurd ⟨e, d, hrun, htook.chars⟩ h

section Sequencing

variable {α β : Type} {c : Cursor}

/-- A program that looks at the character under the cursor walks if the rest of it does. -/
theorem walked_bind_current {f : Option Char → Scan α}
    (h : ∀ o d, Scan.current c = .ok o d → ∃ w, Walked w d (leftBy (f o d))) :
    ∃ w, Walked w c (leftBy ((Scan.current >>= f) c)) := by
  have hpeek := walked_peek 0 c
  cases hrun : Scan.current c with
  | error e d =>
    rw [show Scan.peek 0 c = _ from hrun] at hpeek
    rw [bind_error hrun]
    exact ⟨[], hpeek⟩
  | ok o d =>
    rw [show Scan.peek 0 c = _ from hrun] at hpeek
    rw [bind_ok hrun]
    obtain ⟨w, hw⟩ := h o d hrun
    exact ⟨[] ++ w, hpeek.trans hw⟩

theorem walked_bind_pure {m : Scan α} (f : α → β) (h : ∃ w, Walked w c (leftBy (m c))) :
    ∃ w, Walked w c (leftBy ((m >>= fun a => pure (f a)) c)) := by
  cases hrun : m c with
  | error e d =>
    rw [hrun] at h
    rw [bind_error hrun]
    exact h
  | ok a d =>
    rw [hrun] at h
    rw [bind_ok hrun]
    exact h

end Sequencing

theorem walked_eat {expected : Char} {c : Cursor}
    (h : ¬∃ d, Scan.current c = .ok (some expected) d ∧ d.Slips) :
    ∃ w, Walked w c (leftBy (Scan.eat expected c)) := by
  refine walked_bind_current fun o d hcurrent => ?_
  by_cases ho : o = some expected
  · subst ho
    rw [if_pos rfl]
    exact walked_bind_pure _ (walked_advance fun hslips => h ⟨d, hcurrent, hslips⟩)
  · rw [if_neg ho]
    exact ⟨[], .refl d⟩

theorem walked_eatRound {p : Char → Bool} {n : Nat} {c : Cursor}
    (h : ¬∃ x d, Scan.current c = .ok (some x) d ∧ p x = true ∧ d.Slips) :
    ∃ w, Walked w c (leftBy (eatRound p n c)) := by
  refine walked_bind_current fun o d hcurrent => ?_
  cases o with
  | none => exact ⟨[], .refl d⟩
  | some x =>
    dsimp only
    by_cases hx : p x = true
    · rw [if_pos hx]
      exact walked_bind_pure _ (walked_advance fun hslips => h ⟨x, d, hcurrent, hx, hslips⟩)
    · rw [if_neg hx]
      exact ⟨[], .refl d⟩

/-- The induction is on the rounds: none of them slips. -/
theorem walked_eatWhileAt {p : Nat → Char → Bool} {c : Cursor} (h : ¬EatSlips p 0 c) :
    ∃ w, Walked w c (leftBy (eatWhileAt p c)) := by
  have hround : ∀ {n c}, ¬EatSlips p n c → ∃ w, Walked w c (leftBy (eatRound (p n) n c)) :=
    fun h => walked_eatRound fun ⟨_, _, hcurrent, hx, hslips⟩ => h (.here hcurrent hx hslips)
  unfold eatWhileAt
  generalize 0 = n at h ⊢
  fun_induction Scan.loop with
  | case1 n c n' d hrun _ ih =>
    obtain ⟨v, hv⟩ := hround h
    obtain ⟨w, hw⟩ := ih fun hslips => h (.later hrun hslips)
    rw [hrun] at hv
    exact ⟨v ++ w, hv.trans hw⟩
  | case2 n c a d hrun =>
    have hw := hround h
    rw [hrun] at hw
    exact hw
  | case3 n c e d hrun =>
    have hw := hround h
    rw [hrun] at hw
    exact hw

/-- **An operation that does not slip walks**, whether it succeeds or fails. -/
theorem walked_after {op : Operation} {c : Cursor} (h : ¬op.Slips c) :
    ∃ w, Walked w c (op.after c) := by
  cases op with
  | current => exact ⟨[], walked_peek 0 c⟩
  | peek i => exact ⟨[], walked_peek i c⟩
  | atEnd => exact walked_bind_pure _ ⟨[], walked_peek 0 c⟩
  | advance => exact walked_advance h
  | eat expected => exact walked_eat h
  | eatWhile p => exact walked_eatWhileAt h
  | begin => exact ⟨[], rfl, rfl⟩
  | finish => exact ⟨[], rfl, rfl⟩

theorem walked_afterAll {ops : List Operation} {c : Cursor} (h : ¬SlipsIn ops c) :
    ∃ w, Walked w c (afterAll ops c) := by
  induction ops using List.reverseRecOn with
  | nil => exact ⟨[], .refl c⟩
  | append_singleton ops op ih =>
    have hops : ¬SlipsIn ops c := by
      rintro ⟨front, op', back, rfl, hslips⟩
      exact h ⟨front, op', back ++ [op], by simp, hslips⟩
    obtain ⟨v, hv⟩ := ih hops
    obtain ⟨w, hw⟩ := walked_after fun hslips => h ⟨ops, op, [], rfl, hslips⟩
    rw [afterAll_concat]
    exact ⟨v ++ w, hv.trans hw⟩

/-! ## Sources without faults -/

section Faultless

variable {c d : Cursor}

/-- Where no fault is left, none is left behind a program that reports those it meets. -/
theorem faultless_leftBy {α : Type} {m : Scan α} (hm : Meets m) (h : c.source.faults = []) :
    (leftBy (m c)).source.faults = [] := by
  have hmeets := hm c
  rw [h] at hmeets
  exact (List.append_eq_nil_iff.mp hmeets.symm).2

theorem faultless_of_ok {α : Type} {m : Scan α} {a : α} (hm : Meets m) (hrun : m c = .ok a d)
    (h : c.source.faults = []) : d.source.faults = [] := by
  have hleft := faultless_leftBy hm h
  rwa [hrun] at hleft

theorem not_slips (h : c.source.faults = []) : ¬c.Slips := by
  rintro ⟨e, d, hrun, -⟩
  have hmeets := Meets.advance c
  rw [hrun, h] at hmeets
  cases hmeets

theorem not_eatSlips {p : Nat → Char → Bool} {n : Nat} (h : c.source.faults = []) :
    ¬EatSlips p n c := by
  intro hslips
  induction hslips with
  | here hcurrent _ hslips => exact not_slips (faultless_of_ok (.peek 0) hcurrent h) hslips
  | later hrun _ ih =>
    exact ih (faultless_of_ok (Reading.meets (k := 0) (Scan.reading_eatRound _ _)) hrun h)

theorem faultless_after (op : Operation) (h : c.source.faults = []) :
    (op.after c).source.faults = [] := by
  cases hop : op.marks with
  | true =>
    rw [after_of_marks hop]
    exact h
  | false =>
    obtain ⟨α, k, m, hm, hafter⟩ := exists_reading hop
    rw [hafter]
    exact faultless_leftBy hm.meets h

/-- **Without faults nothing slips**; so line and column are right on every text. -/
theorem not_slipsIn (h : c.source.faults = []) (ops : List Operation) : ¬SlipsIn ops c := by
  have hfront : ∀ front, (afterAll front c).source.faults = [] := by
    intro front
    induction front using List.reverseRecOn with
    | nil => exact h
    | append_singleton front op ih =>
      rw [afterAll_concat]
      exact faultless_after op ih
  rintro ⟨front, op, back, -, hslips⟩
  cases op with
  | advance => exact not_slips (hfront front) hslips
  | eat expected =>
    obtain ⟨d, hcurrent, hslips⟩ := hslips
    exact not_slips (faultless_of_ok (.peek 0) hcurrent (hfront front)) hslips
  | eatWhile p => exact not_eatSlips (hfront front) hslips
  | _ => exact hslips

end Faultless

/-! ## The account -/

/-- What holds behind operations on a source, the cursor having taken `v` until the last of them
that began a new span, and `w` since. -/
structure KeepsAccount (source : Source) (ops : List Operation) (v w : List Char) : Prop where
  /-- Of offset, text and span, whatever has failed. -/
  accounts : Accounts source (afterAll (upToMark ops) (.ofSource source)) v w
    (afterAll ops (.ofSource source))
  /-- The span that `finish` would hand out here reaches from the place where the last one was begun
  to this place, and comes with the text between them. -/
  finish_eq : Scan.finish (afterAll ops (.ofSource source)) =
    .ok (String.ofList w, (afterAll (upToMark ops) (.ofSource source)).position.spanTo
        (afterAll ops (.ofSource source)).position)
      (Operation.finish.after (afterAll ops (.ofSource source)))
  /-- Of line and column, as long as nothing slipped. -/
  counts : ¬SlipsIn ops (.ofSource source) →
    (afterAll ops (.ofSource source)).position.Counts (v ++ w)
      (afterAll ops (.ofSource source)).source.chars

/-- **A cursor keeps account.** On every source, text or feed, behind every sequence of operations,
whether they succeeded or failed, offset, text and span are those of the characters that were taken,
and line and column are too unless `advance` slipped. A failing `advance` that does not slip takes
nothing and leaves the place as it is. -/
theorem keeps_account :
    (∀ source ops, ∃ v w, KeepsAccount source ops v w) ∧
      ∀ c e d, Scan.advance c = .error e d →
        d.source.chars = c.source.chars ∧ d.position = c.position ∨
          c.Slips ∧ (∃ b, Scan.peek 0 b = .error e d) ∧
            d.position = { c.position with offset := c.position.offset + 1 } := by
  constructor
  · intro source ops
    obtain ⟨v, w, h⟩ := accounts_afterAll source ops
    refine ⟨v, w, h, ?_, ?_⟩
    · have htext : (afterAll ops (.ofSource source)).text = String.ofList w := by
        rw [← h.text_eq, String.ofList_toList]
      rw [← htext, Position.spanTo, ← h.start_eq]
      rfl
    · intro hslips
      obtain ⟨x, hx⟩ := walked_afterAll hslips
      obtain rfl : x = v ++ w := List.append_cancel_right (hx.chars.symm.trans h.chars_eq)
      rw [hx.position]
      exact Position.counts_behind _ _
  · intro c e d hrun
    have hadvanced := advanced c
    rw [hrun] at hadvanced
    cases hadvanced with
    | failed htook hplace => exact Or.inl ⟨htook.chars.symm, hplace⟩
    | slipped hpeek htook hplace =>
      exact Or.inr ⟨⟨e, d, hrun, htook.chars⟩, ⟨_, hpeek⟩, hplace⟩

/-- A carriage return that slipped counts for the offset, but not for the column. -/
example (e : Fault) :
    (afterAll [.advance, .advance] (.ofSource (.ofFeed [.ok '\r', .error e, .ok 'a']))).position =
      ⟨2, 1, 2⟩ := rfl

end Cursor

end LuaLex
