import LuaLex.Proofs.Place
import LuaLex.Proofs.Reading

/-!
# What a run leaves behind

A program may end in a fault at any point, and the next one goes on with the cursor it left. So what
is said here holds of a run however it ends: no character that was decoded is lost or comes twice,
the offset counts those that were taken, and each fault that was met is reported once.

* `Source.chars`, `Source.faults`: the characters and the faults a source still has to hand out.
* `Keeps R m`: the program `m` leads to a cursor that is related to the one before it by `R`.
  `Reading.keeps` lifts this from looking ahead and taking a character to all scanners.
* `Meets m`: a run of `m` uses up the fault it reports, and no other.
* `Cursor.Took`, `Cursor.Passed`: which characters were taken between two cursors.
* `Scan.Advanced`: what taking a character can come to (`advanced`).
-/

namespace LuaLex

/-! ## What is still to come -/

namespace Feed

/-- The characters of a feed; faults are skipped. -/
def chars : Feed → List Char
  | [] => []
  | .ok c :: feed => c :: chars feed
  | .error _ :: feed => chars feed

/-- The faults of a feed. -/
def faults : Feed → List Fault
  | [] => []
  | .ok _ :: feed => faults feed
  | .error e :: feed => e :: faults feed

@[simp] theorem chars_append (v w : Feed) : chars (v ++ w) = chars v ++ chars w := by
  induction v with
  | nil => rfl
  | cons item v ih =>
    cases item with
    | ok c => exact congrArg (c :: ·) ih
    | error e => exact ih

@[simp] theorem faults_append (v w : Feed) : faults (v ++ w) = faults v ++ faults w := by
  induction v with
  | nil => rfl
  | cons item v ih =>
    cases item with
    | ok c => exact ih
    | error e => exact congrArg (e :: ·) ih

end Feed

namespace Source

/-- The characters that a source still has to hand out. -/
def chars : Source → List Char
  | text rest => rest
  | reader ahead feed => ahead ++ Feed.chars feed

/-- The faults that a source still has to report. -/
def faults : Source → List Fault
  | text _ => []
  | reader _ feed => Feed.faults feed

theorem length_chars_add_length_faults (s : Source) :
    s.chars.length + s.faults.length = s.size := by
  cases s with
  | text rest => rfl
  | reader ahead feed =>
    simp only [chars, faults, size, List.length_append]
    induction feed with
    | nil => rfl
    | cons item feed ih =>
      cases item with
      | ok c =>
        simp only [Feed.chars, Feed.faults, List.length_cons]
        omega
      | error e =>
        simp only [Feed.chars, Feed.faults, List.length_cons]
        omega

end Source

/-- The fault that a run ends with, if it does. -/
def metBy {ε σ α : Type} : EStateM.Result ε σ α → List ε
  | .ok _ _ => []
  | .error e _ => [e]

namespace Source

/-- Filling the queue moves the characters of the next items into it, and no more of them than are
asked for. -/
theorem fill_decodes (n : Nat) (ahead : List Char) (feed : Feed) :
    ∃ done rest, feed = done ++ rest ∧
      leftBy (fill n ahead feed) = reader (ahead ++ Feed.chars done) rest ∧
      Feed.faults done = metBy (fill n ahead feed) ∧
      (ahead ++ Feed.chars done).length ≤ max ahead.length n := by
  -- where nothing is decoded, the queue stays
  have hstay : ∀ (ahead : List Char) (feed : Feed), reader ahead feed = reader (ahead ++ []) feed ∧
      (ahead ++ []).length ≤ max ahead.length n := by
    intro ahead feed
    rw [List.append_nil]
    exact ⟨rfl, Nat.le_max_left _ _⟩
  induction feed generalizing ahead with
  | nil =>
    obtain ⟨hreader, hlength⟩ := hstay ahead []
    exact ⟨[], [], rfl, hreader, rfl, hlength⟩
  | cons item feed ih =>
    unfold fill
    by_cases hn : n ≤ ahead.length
    · obtain ⟨hreader, hlength⟩ := hstay ahead (item :: feed)
      rw [if_pos hn]
      exact ⟨[], item :: feed, rfl, hreader, rfl, hlength⟩
    · rw [if_neg hn]
      cases item with
      | error e =>
        obtain ⟨hreader, hlength⟩ := hstay ahead feed
        exact ⟨[.error e], feed, rfl, hreader, rfl, hlength⟩
      | ok c =>
        obtain ⟨done, rest, rfl, hleft, hfaults, hlength⟩ := ih (ahead ++ [c])
        refine ⟨.ok c :: done, rest, rfl, ?_, hfaults, ?_⟩
        · rw [hleft, List.append_assoc]
          rfl
        · simp only [List.length_append, List.length_singleton] at hlength
          simp only [Feed.chars, List.length_append, List.length_cons]
          omega

/-- Filling the queue loses no character, and uses up the fault it ends with. -/
theorem fill_left (n : Nat) (ahead : List Char) (feed : Feed) :
    (leftBy (fill n ahead feed)).chars = ahead ++ Feed.chars feed ∧
      Feed.faults feed = metBy (fill n ahead feed) ++ (leftBy (fill n ahead feed)).faults := by
  obtain ⟨done, rest, rfl, hleft, hfaults, -⟩ := fill_decodes n ahead feed
  rw [hleft, ← hfaults, Feed.chars_append, Feed.faults_append, ← List.append_assoc]
  exact ⟨rfl, rfl⟩

/-- Looking ahead leaves and reports what filling the queue does. -/
theorem peek_reader (i : Nat) (queue : List Char) (rest : Feed) :
    leftBy (peek i (reader queue rest)) = leftBy (fill (i + 1) queue rest) ∧
      metBy (peek i (reader queue rest)) = metBy (fill (i + 1) queue rest) := by
  simp only [peek]
  cases fill (i + 1) queue rest with
  | ok queue t => exact ⟨rfl, rfl⟩
  | error e t => exact ⟨rfl, rfl⟩

/-- Looking ahead takes no character. -/
theorem peek_left (i : Nat) (s : Source) :
    (leftBy (peek i s)).chars = s.chars ∧
      s.faults = metBy (peek i s) ++ (leftBy (peek i s)).faults := by
  cases s with
  | text rest => exact ⟨rfl, rfl⟩
  | reader ahead feed =>
    obtain ⟨hleft, hmet⟩ := peek_reader i ahead feed
    rw [hleft, hmet]
    exact fill_left (i + 1) ahead feed

/-- Filling the queue stops short of the wanted number only where nothing is left to decode. -/
theorem fill_stops {n : Nat} {ahead queue : List Char} {feed : Feed} {s : Source}
    (h : fill n ahead feed = .ok queue s) :
    n ≤ queue.length ∨ s = reader queue [] := by
  induction feed generalizing ahead with
  | nil =>
    cases h
    exact Or.inr rfl
  | cons item feed ih =>
    unfold fill at h
    by_cases hn : n ≤ ahead.length
    · rw [if_pos hn] at h
      cases h
      exact Or.inl hn
    · rw [if_neg hn] at h
      cases item with
      | ok c => exact ih h
      | error e => cases h

/-- No character is in sight only where nothing is left. -/
theorem size_eq_zero_of_peek {s t : Source} (h : peek 0 s = .ok none t) : t.size = 0 := by
  cases s with
  | text rest =>
    simp only [peek] at h
    injection h with hnone ht
    obtain rfl : rest = [] := by simpa using hnone
    rw [← ht]
    rfl
  | reader ahead feed =>
    simp only [peek] at h
    cases hf : fill (0 + 1) ahead feed with
    | error e u => simp [hf] at h
    | ok queue u =>
      simp only [hf] at h
      injection h with hnone ht
      obtain rfl : queue = [] := by simpa using hnone
      rcases fill_stops hf with hlen | rfl
      · cases hlen
      · rw [← ht]
        rfl

/-- What is shown is the character that many places ahead among those that are left. -/
theorem peek_eq_ok {i : Nat} {s t : Source} {o : Option Char} (h : peek i s = .ok o t) :
    o = s.chars[i]? ∧ t.chars = s.chars := by
  have hleft := (peek_left i s).1
  rw [h] at hleft
  refine ⟨?_, hleft⟩
  cases s with
  | text rest =>
    cases h
    rfl
  | reader ahead feed =>
    simp only [peek] at h
    cases hfill : fill (i + 1) ahead feed with
    | error e u => simp [hfill] at h
    | ok queue u =>
      simp only [hfill] at h
      cases h
      obtain ⟨feed', rfl, -⟩ := fill_eq_ok hfill
      rw [← hleft]
      show queue[i]? = (queue ++ Feed.chars feed')[i]?
      rcases fill_stops hfill with hlength | hend
      · rw [List.getElem?_append_left hlength]
      · obtain rfl : feed' = [] := by injection hend
        exact congrArg (·[i]?) (List.append_nil queue).symm

/-- The characters that a run of `next` takes. -/
def takenBy : EStateM.Result Fault Source (Option Char) → List Char
  | .ok o _ => o.toList
  | .error _ _ => []

/-- Taking a character takes the first one that is left. -/
theorem next_left (s : Source) :
    s.chars = takenBy (next s) ++ (leftBy (next s)).chars ∧
      s.faults = metBy (next s) ++ (leftBy (next s)).faults := by
  unfold next
  split
  all_goals exact ⟨rfl, rfl⟩

end Source

/-! ## However a run ends -/

namespace Scan

section Rules

variable {α β : Type}

/-- However a run of the program ends, it leads to a cursor related to the one before it. -/
def Keeps (R : Cursor → Cursor → Prop) (m : Scan α) : Prop := ∀ c, R c (leftBy (m c))

/-- A run of the program uses up the fault that it ends with, and no other. -/
def Meets (m : Scan α) : Prop :=
  ∀ c, c.source.faults = metBy (m c) ++ (leftBy (m c)).source.faults

/-- A relation between cursors that runs behind one another keep if each does. -/
structure Composes (R : Cursor → Cursor → Prop) : Prop where
  refl : ∀ c, R c c
  trans : ∀ {c d e}, R c d → R d e → R c e

namespace Keeps

variable {R : Cursor → Cursor → Prop}

theorem pure (hR : Composes R) (a : α) : Keeps R (Pure.pure a : Scan α) := fun c => hR.refl c

theorem bind (hR : Composes R) {m : Scan α} {f : α → Scan β} (hm : Keeps R m)
    (hf : ∀ a, Keeps R (f a)) : Keeps R (m >>= f) := by
  intro c
  have h := hm c
  cases e : m c with
  | ok a d =>
    rw [e] at h
    rw [bind_ok e]
    exact hR.trans h (hf a d)
  | error x d =>
    rw [e] at h
    rw [bind_error e]
    exact h

theorem ite {p : Prop} [Decidable p] {m n : Scan α} (hm : Keeps R m) (hn : Keeps R n) :
    Keeps R (if p then m else n) := by
  split <;> assumption

theorem loop (hR : Composes R) {body : β → Scan (Round β α)} {progress : Progress body}
    (hbody : ∀ b, Keeps R (body b)) (b : β) : Keeps R (Scan.loop body progress b) := by
  intro c
  have h := hbody b c
  fun_induction Scan.loop body progress b c with
  | case1 b c b' d e _ ih =>
    rw [e] at h
    exact hR.trans h (ih (hbody b' d))
  | case2 b c a d e =>
    rw [e] at h
    exact h
  | case3 b c x d e =>
    rw [e] at h
    exact h

end Keeps

/-- **What looking ahead and taking a character keep, every scanner keeps.** -/
theorem Reading.keeps {R : Cursor → Cursor → Prop} (hR : Composes R)
    (hpeek : ∀ i, Keeps R (Scan.peek i)) (hadvance : Keeps R Scan.advance) {k : Nat}
    {m : Scan α} (hm : Reading k m) : Keeps R m := by
  induction hm with
  | pure a => exact .pure hR a
  | bind _ _ ihm ihf => exact .bind hR ihm ihf
  | peek i _ => exact hpeek i
  | advance => exact hadvance
  | withText _ _ ih => exact fun c => ih c c
  | loop b _ ih => exact .loop hR ih b

namespace Meets

theorem pure (a : α) : Meets (Pure.pure a : Scan α) := fun _ => rfl

theorem bind {m : Scan α} {f : α → Scan β} (hm : Meets m) (hf : ∀ a, Meets (f a)) :
    Meets (m >>= f) := by
  intro c
  have h := hm c
  cases e : m c with
  | ok a d =>
    rw [e] at h
    rw [bind_ok e, h]
    exact hf a d
  | error x d =>
    rw [e] at h
    rw [bind_error e]
    exact h

theorem ite {p : Prop} [Decidable p] {m n : Scan α} (hm : Meets m) (hn : Meets n) :
    Meets (if p then m else n) := by
  split <;> assumption

/-- What a program does to the cursor without its source meets no fault. -/
theorem modifyGet {f : Cursor → α × Cursor} (hf : ∀ c, (f c).2.source = c.source) :
    Meets (MonadStateOf.modifyGet f : Scan α) := by
  intro c
  show c.source.faults = [] ++ (f c).2.source.faults
  rw [hf, List.nil_append]

theorem loop {body : β → Scan (Round β α)} {progress : Progress body}
    (hbody : ∀ b, Meets (body b)) (b : β) : Meets (Scan.loop body progress b) := by
  intro c
  have h := hbody b c
  fun_induction Scan.loop body progress b c with
  | case1 b c b' d e _ ih =>
    rw [e] at h
    rw [h]
    exact ih (hbody b' d)
  | case2 b c a d e =>
    rw [e] at h
    exact h
  | case3 b c x d e =>
    rw [e] at h
    exact h

theorem peek (i : Nat) : Meets (Scan.peek i) := by
  intro c
  have h := (Source.peek_left i c.source).2
  unfold Scan.peek onSource
  cases hp : Source.peek i c.source with
  | ok o s =>
    rw [hp] at h
    exact h
  | error e s =>
    rw [hp] at h
    exact h

theorem next : Meets (onSource Source.next) := by
  intro c
  have h := (Source.next_left c.source).2
  unfold onSource
  cases hn : Source.next c.source with
  | ok o s =>
    rw [hn] at h
    exact h
  | error e s =>
    rw [hn] at h
    exact h

theorem breaksLine (x : Char) : Meets (Scan.breaksLine x) :=
  .ite (.pure _) (.ite (.bind (.peek 0) fun _ => .pure _) (.pure _))

theorem advance : Meets Scan.advance :=
  .bind .next fun o => by
    cases o with
    | none => exact .pure _
    | some x =>
      exact .bind (.modifyGet fun _ => rfl) fun _ =>
        .bind (.breaksLine x) fun _ => .bind (.modifyGet fun _ => rfl) fun _ => .pure _

end Meets

/-- **Scanners report the faults they meet**, each once. -/
theorem Reading.meets {k : Nat} {m : Scan α} (hm : Reading k m) : Meets m := by
  induction hm with
  | pure a => exact .pure a
  | bind _ _ ihm ihf => exact .bind ihm ihf
  | peek i _ => exact .peek i
  | advance => exact .advance
  | withText _ _ ih => exact fun c => ih c c
  | loop b _ ih => exact .loop ih b

end Rules

end Scan

/-! ## What was taken -/

namespace Cursor

/-- From `c` to `d` the characters `w` were taken. -/
structure Passed (w : List Char) (c d : Cursor) : Prop where
  chars : c.source.chars = w ++ d.source.chars
  offset : d.position.offset = c.position.offset + byteLength w

/-- From `c` to `d` the characters `w` were taken, all in one span. -/
structure Took (w : List Char) (c d : Cursor) : Prop extends Passed w c d where
  text : d.text.toList = c.text.toList ++ w
  start : d.start = c.start

theorem Passed.refl (c : Cursor) : Passed [] c c := ⟨rfl, rfl⟩

theorem Passed.trans {v w : List Char} {c d e : Cursor} (h : Passed v c d) (h' : Passed w d e) :
    Passed (v ++ w) c e where
  chars := by rw [h.chars, h'.chars, List.append_assoc]
  offset := by rw [h'.offset, h.offset, byteLength_append, Nat.add_assoc]

theorem Took.refl (c : Cursor) : Took [] c c :=
  ⟨.refl c, (List.append_nil _).symm, rfl⟩

theorem Took.trans {v w : List Char} {c d e : Cursor} (h : Took v c d) (h' : Took w d e) :
    Took (v ++ w) c e :=
  ⟨h.toPassed.trans h'.toPassed, by rw [h'.text, h.text, List.append_assoc],
    h'.start.trans h.start⟩

end Cursor

namespace Scan

open Cursor (Passed Took)

theorem composes_passed : Composes fun c d => ∃ w, Passed w c d where
  refl c := ⟨[], .refl c⟩
  trans := by
    rintro c d e ⟨v, h⟩ ⟨w, h'⟩
    exact ⟨v ++ w, h.trans h'⟩

theorem composes_took : Composes fun c d => ∃ w, Took w c d where
  refl c := ⟨[], .refl c⟩
  trans := by
    rintro c d e ⟨v, h⟩ ⟨w, h'⟩
    exact ⟨v ++ w, h.trans h'⟩

/-- Nothing is taken by looking ahead. -/
theorem took_peek (i : Nat) : Keeps (Took []) (peek i) := by
  intro c
  have h := (Source.peek_left i c.source).1
  unfold peek onSource
  cases hp : Source.peek i c.source with
  | ok o s =>
    rw [hp] at h
    exact ⟨⟨h.symm, rfl⟩, (List.append_nil _).symm, rfl⟩
  | error e s =>
    rw [hp] at h
    exact ⟨⟨h.symm, rfl⟩, (List.append_nil _).symm, rfl⟩

/-- Whether a line ends behind a character is told by the one that is left behind it. Only behind a
carriage return does that one have to be had. -/
theorem breaksLine_cases (x : Char) (c : Cursor) :
    ∃ s, s.chars = c.source.chars ∧
      (breaksLine x c = .ok (endsLine x c.source.chars.head?) { c with source := s } ∨
        x = '\r' ∧ ∃ e, peek 0 c = .error e { c with source := s } ∧
          breaksLine x c = .error e { c with source := s }) := by
  by_cases hn : x = '\n'
  · subst hn
    exact ⟨c.source, rfl, Or.inl rfl⟩
  by_cases hr : x = '\r'
  · subst hr
    cases hp : Source.peek 0 c.source with
    | error e s =>
      have hpeek : peek 0 c = .error e { c with source := s } := by simp only [peek, onSource, hp]
      have hchars := (Source.peek_left 0 c.source).1
      rw [hp] at hchars
      exact ⟨s, hchars, Or.inr ⟨rfl, e, hpeek, bind_error hpeek⟩⟩
    | ok o s =>
      have hpeek : peek 0 c = .ok o { c with source := s } := by simp only [peek, onSource, hp]
      obtain ⟨rfl, hchars⟩ := Source.peek_eq_ok hp
      refine ⟨s, hchars, Or.inl ?_⟩
      rw [List.head?_eq_getElem?]
      exact bind_ok hpeek
  · have hends : endsLine x c.source.chars.head? = false := by simp [endsLine, hn, hr]
    refine ⟨c.source, rfl, Or.inl ?_⟩
    rw [breaksLine, if_neg hn, if_neg hr, hends]
    rfl

/-- Counting a character in the text and then in its line leads to the place behind it. -/
theorem position_move_push (x : Char) (follower : Option Char) (c : Cursor) (s : Source) :
    (Cursor.move (endsLine x follower) { Cursor.push x c with source := s }).position =
      c.position.step x follower := by
  unfold Cursor.move Position.step
  cases endsLine x follower <;> rfl

/-- What taking a character does to a cursor. -/
inductive Advanced (c : Cursor) : EStateM.Result Fault Cursor (Option Char) → Prop where
  /-- At the end of input nothing is taken. -/
  | ended {d : Cursor} : Took [] c d → d.position = c.position → Advanced c (.ok none d)
  | taken {x : Char} {d : Cursor} : Took [x] c d →
      d.position = c.position.step x d.source.chars.head? → Advanced c (.ok (some x) d)
  /-- The character cannot be had. -/
  | failed {e : Fault} {d : Cursor} : Took [] c d → d.position = c.position →
      Advanced c (.error e d)
  /-- A carriage return is taken, and then the character behind it cannot be had: it goes to the
  text and to the offset, but line and column stay. -/
  | slipped {e : Fault} {b d : Cursor} : peek 0 b = .error e d → Took ['\r'] c d →
      d.position = { c.position with offset := c.position.offset + 1 } → Advanced c (.error e d)

theorem advanced (c : Cursor) : Advanced c (advance c) := by
  have h := (Source.next_left c.source).1
  unfold advance
  cases hn : Source.next c.source with
  | error e s =>
    have hrun : onSource Source.next c = .error e { c with source := s } := by
      simp only [onSource, hn]
    rw [hn] at h
    rw [bind_error hrun]
    exact .failed ⟨⟨h, rfl⟩, (List.append_nil _).symm, rfl⟩ rfl
  | ok o s =>
    have hrun : onSource Source.next c = .ok o { c with source := s } := by
      simp only [onSource, hn]
    rw [hn] at h
    rw [bind_ok hrun]
    cases o with
    | none => exact .ended ⟨⟨h, rfl⟩, (List.append_nil _).symm, rfl⟩ rfl
    | some x =>
      -- the character is accounted for before the one behind it is looked at
      have hpush : ∀ t, t.chars = s.chars →
          Took [x] c { Cursor.push x { c with source := s } with source := t } := by
        intro t ht
        exact ⟨⟨h.trans (congrArg _ ht.symm), rfl⟩, String.toList_push x, rfl⟩
      obtain ⟨t, ht, hbreaks | ⟨rfl, e, hpeek, hbreaks⟩⟩ :=
        breaksLine_cases x (Cursor.push x { c with source := s })
      · have hmove : ∀ breaks c, Took [] c (Cursor.move breaks c) := fun breaks c =>
          ⟨⟨rfl, by cases breaks <;> rfl⟩, (List.append_nil _).symm, rfl⟩
        show Advanced c ((breaksLine x >>= _) (Cursor.push x { c with source := s }))
        rw [bind_ok hbreaks]
        refine .taken ((hpush t ht).trans (hmove _ _)) ?_
        exact (position_move_push x _ _ t).trans (congrArg (c.position.step x ·.head?) ht.symm)
      · show Advanced c ((breaksLine '\r' >>= _) (Cursor.push '\r' { c with source := s }))
        rw [bind_error hbreaks]
        exact .slipped hpeek (hpush t ht) rfl

/-- A character that is taken goes to the text and to the offset, also if the one behind it cannot
be had. -/
theorem took_advance : Keeps (fun c d => ∃ w, Took w c d) advance := by
  intro c
  have h := advanced c
  cases hrun : advance c with
  | ok o d =>
    rw [hrun] at h
    cases h with
    | ended h _ => exact ⟨_, h⟩
    | taken h _ => exact ⟨_, h⟩
  | error e d =>
    rw [hrun] at h
    cases h with
    | failed h _ => exact ⟨_, h⟩
    | slipped _ h _ => exact ⟨_, h⟩

/-- **A scanner accounts for what it takes**, however it ends. -/
theorem Reading.took {α : Type} {k : Nat} {m : Scan α} (hm : Reading k m) :
    Keeps (fun c d => ∃ w, Took w c d) m :=
  hm.keeps composes_took (fun i c => ⟨[], took_peek i c⟩) took_advance

end Scan

end LuaLex
