import LuaLex.Scan

/-!
# Progress and the loop

The one loop that scanners are made of, and why it ends.

* `Shrinks m`: the program `m` never adds to what is left to read. It holds of every operation of a
  cursor and is kept by sequencing.
* `TakesAt c m`: run from `c`, the program `m` leaves less to read unless it fails.
* `TakesWhen P c m`: as `TakesAt`, for those runs whose answer is one of `P`.
* `loop`: a round that asks for another one has to leave less to read (`Progress`), so the loop
  ends. `loop_eq` is its unfolding.
* `eatWhile`: takes the run of characters of a class.
-/

namespace LuaLex.Scan

/-! ## What a run leaves to read -/

/-- A program that never adds to what is left to read. -/
def Shrinks {α : Type} (m : Scan α) : Prop :=
  ∀ cursor, (leftBy (m cursor)).size ≤ cursor.size

namespace Shrinks

variable {α β : Type}

theorem ok {m : Scan α} (h : Shrinks m) {c c' : Cursor} {a : α} (e : m c = .ok a c') :
    c'.size ≤ c.size := by
  simpa [e, leftBy] using h c

theorem pure (a : α) : Shrinks (Pure.pure a) := fun _ => Nat.le_refl _

theorem bind {m : Scan α} {f : α → Scan β} (hm : Shrinks m) (hf : ∀ a, Shrinks (f a)) :
    Shrinks (m >>= f) := by
  intro c
  show (leftBy (EStateM.bind m f c)).size ≤ c.size
  have h := hm c
  unfold EStateM.bind
  split
  · rename_i a c' e
    exact Nat.le_trans (hf a c') (by simpa [e, leftBy] using h)
  · rename_i e' c' e
    simpa [e, leftBy] using h

theorem ite {p : Prop} [Decidable p] {m n : Scan α} (hm : Shrinks m) (hn : Shrinks n) :
    Shrinks (if p then m else n) := by
  split <;> assumption

theorem modify {f : Cursor → Cursor} (h : ∀ c, (f c).size = c.size) :
    Shrinks (modify f) :=
  fun c => Nat.le_of_eq (h c)

theorem get : Shrinks (MonadState.get : Scan Cursor) := fun _ => Nat.le_refl _

end Shrinks

theorem Shrinks.onSource {α : Type} {m : EStateM Fault Source α}
    (h : ∀ s, (leftBy (m s)).size ≤ s.size) : Shrinks (onSource m) := by
  intro cursor
  have := h cursor.source
  unfold Scan.onSource
  split <;> simp_all [leftBy, Cursor.size]

theorem shrinks_peek (i : Nat) : Shrinks (peek i) :=
  .onSource (Source.peek_size_le i)

theorem shrinks_current : Shrinks current := shrinks_peek 0

theorem shrinks_breaksLine (c : Char) : Shrinks (breaksLine c) :=
  .ite (.pure _) (.ite (.bind (shrinks_peek 0) fun _ => .pure _) (.pure _))

/-- What follows the taking of a character in `advance`. -/
theorem shrinks_account (c : Char) : Shrinks (do
    modify (Cursor.push c)
    let breaks ← breaksLine c
    modify (Cursor.move breaks)
    return some c) :=
  .bind (.modify fun _ => rfl) fun _ =>
    .bind (shrinks_breaksLine c) fun _ => .bind (.modify fun _ => rfl) fun _ => .pure _

theorem shrinks_advance : Shrinks advance :=
  .bind (.onSource Source.next_size_le) fun c => by
    cases c with
    | none => exact .pure _
    | some c => exact shrinks_account c

theorem shrinks_eat (expected : Char) : Shrinks (eat expected) :=
  .bind shrinks_current fun _ => .ite (.bind shrinks_advance fun _ => .pure _) (.pure _)

theorem shrinks_begin : Shrinks begin := .modify fun _ => rfl

theorem shrinks_finish : Shrinks finish := fun _ => Nat.le_refl _

/-- A character that `advance` reports has been taken. -/
theorem advance_size_lt {c c' : Cursor} {x : Char} (h : advance c = .ok (some x) c') :
    c'.size < c.size := by
  change EStateM.bind (onSource Source.next) _ c = _ at h
  unfold EStateM.bind onSource at h
  cases hn : Source.next c.source with
  | error e s => simp [hn] at h
  | ok o s =>
    cases o with
    | none => simp [hn] at h; cases h
    | some y =>
      simp only [hn] at h
      exact Nat.lt_of_le_of_lt (Shrinks.ok (shrinks_account y) h) (Source.next_size_lt hn)

/-! ## Taking the character in sight -/

/-- The cursor stands on `x`. -/
def Sees (x : Char) (c : Cursor) : Prop := c.source.Shows x

theorem sees_of_current {x : Char} {c c' : Cursor} (h : current c = .ok (some x) c') :
    Sees x c' := by
  unfold current peek onSource at h
  cases hp : Source.peek 0 c.source with
  | error e s => simp [hp] at h
  | ok p s =>
    simp only [hp] at h
    cases h
    exact Source.shows_of_peek hp

theorem Sees.current {x : Char} {c : Cursor} (h : Sees x c) : current c = .ok (some x) c := by
  simp [Scan.current, peek, onSource, Source.Shows.peek h]

theorem Sees.of_peek {x : Char} {c c' : Cursor} {i : Nat} {o : Option Char} (hs : Sees x c)
    (h : peek i c = .ok o c') : Sees x c' := by
  unfold peek onSource at h
  cases hp : Source.peek i c.source with
  | error e s => simp [hp] at h
  | ok p s =>
    simp only [hp] at h
    cases h
    exact Source.Shows.of_peek hs hp

/-- Run from `c`, the program leaves less to read unless it fails. -/
def TakesAt {α : Type} (c : Cursor) (m : Scan α) : Prop :=
  ∀ ⦃a c'⦄, m c = .ok a c' → c'.size < c.size

/-- `advance` takes the character the cursor stands on. -/
theorem Sees.advance {x : Char} {c c' : Cursor} {o : Option Char} (hs : Sees x c)
    (h : advance c = .ok o c') : o = some x ∧ c'.size < c.size := by
  obtain ⟨u, hu⟩ := Source.Shows.next hs
  obtain rfl : o = some x := by
    change EStateM.bind (onSource Source.next) _ _ = _ at h
    simp only [EStateM.bind, onSource, hu] at h
    change EStateM.bind (breaksLine x) _ _ = _ at h
    unfold EStateM.bind at h
    split at h
    · cases h
      rfl
    · cases h
  exact ⟨rfl, advance_size_lt h⟩

namespace TakesAt

variable {α β : Type}

theorem advance {x : Char} {c : Cursor} (hs : Sees x c) : TakesAt c advance :=
  fun _ _ h => (hs.advance h).2

theorem bind {c : Cursor} {m : Scan α} {f : α → Scan β} (hm : TakesAt c m)
    (hf : ∀ a, Shrinks (f a)) : TakesAt c (m >>= f) := by
  intro b c' h
  change EStateM.bind m f c = _ at h
  unfold EStateM.bind at h
  cases e : m c with
  | error x s => simp [e] at h
  | ok a s =>
    simp only [e] at h
    exact Nat.lt_of_le_of_lt ((hf a).ok h) (hm e)

end TakesAt

/-- Run from `c`, the program leaves less to read whenever its answer is one of `P`. -/
def TakesWhen {α : Type} (P : α → Prop) (c : Cursor) (m : Scan α) : Prop :=
  ∀ ⦃a c'⦄, m c = .ok a c' → P a → c'.size < c.size

namespace TakesWhen

variable {α β : Type} {P : α → Prop} {c : Cursor}

theorem of_takesAt {m : Scan α} (h : TakesAt c m) : TakesWhen P c m :=
  fun _ _ e _ => h e

theorem pure {a : α} (h : ¬P a) : TakesWhen P c (Pure.pure a : Scan α) := by
  intro b c' e hb
  cases e
  exact absurd hb h

theorem ite {p : Prop} [Decidable p] {m n : Scan α} (hm : p → TakesWhen P c m)
    (hn : ¬p → TakesWhen P c n) : TakesWhen P c (if p then m else n) := by
  split
  · exact hm ‹_›
  · exact hn ‹_›

/-- What comes first may see to it that the rest takes something. -/
theorem bind {m : Scan β} {f : β → Scan α} (hm : Shrinks m)
    (hf : ∀ b c', m c = .ok b c' → TakesWhen P c' (f b)) : TakesWhen P c (m >>= f) := by
  intro a c' h ha
  change EStateM.bind m f c = _ at h
  unfold EStateM.bind at h
  cases e : m c with
  | error x s => simp [e] at h
  | ok b s =>
    simp only [e] at h
    exact Nat.lt_of_lt_of_le (hf b s e h ha) (hm.ok e)

/-- A program that begins by looking at the character under the cursor. -/
theorem bind_current {f : Option Char → Scan α} (hnone : ∀ c', TakesWhen P c' (f none))
    (hsome : ∀ x c', Sees x c' → TakesWhen P c' (f (some x))) : TakesWhen P c (current >>= f) :=
  bind shrinks_current fun o c' e => by
    cases o with
    | none => exact hnone c'
    | some x => exact hsome x c' (sees_of_current e)

/-- If the first part takes something for some answers, the rest has to for the others. -/
theorem bind_or {Q : β → Prop} {m : Scan β} {f : β → Scan α} (hm : Shrinks m)
    (hq : TakesWhen Q c m) (hf : ∀ b, Q b → Shrinks (f b))
    (hn : ∀ b c', ¬Q b → TakesWhen P c' (f b)) : TakesWhen P c (m >>= f) := by
  intro a c' h ha
  change EStateM.bind m f c = _ at h
  unfold EStateM.bind at h
  cases e : m c with
  | error x s => simp [e] at h
  | ok b s =>
    simp only [e] at h
    by_cases hb : Q b
    · exact Nat.lt_of_le_of_lt ((hf b hb).ok h) (hq e hb)
    · exact Nat.lt_of_lt_of_le (hn b s hb h ha) (hm.ok e)

end TakesWhen

/-! ## The loop -/

/-- How a round of a loop ends. -/
inductive Round (β α : Type) where
  /-- Another round follows, with this value. -/
  | again (b : β)
  /-- The loop ends with this answer. -/
  | stop (a : α)

/-- A round that asks for another one leaves less to read. -/
def Progress {α β : Type} (body : β → Scan (Round β α)) : Prop :=
  ∀ ⦃b b' c c'⦄, body b c = .ok (.again b') c' → c'.size < c.size

/-- Runs rounds of `body` until one of them stops. -/
def loop {α β : Type} (body : β → Scan (Round β α)) (progress : Progress body) (b : β)
    (cursor : Cursor) : EStateM.Result Fault Cursor α :=
  match h : body b cursor with
  | .ok (.again b') cursor' =>
    have := progress h
    loop body progress b' cursor'
  | .ok (.stop a) cursor' => .ok a cursor'
  | .error e cursor' => .error e cursor'
termination_by cursor.size

/-- Progress in terms of single runs: an answer that asks for another round has taken something. -/
theorem Progress.of_takesWhen {α β : Type} {body : β → Scan (Round β α)}
    (h : ∀ b c, TakesWhen (fun round => ∃ b', round = .again b') c (body b)) : Progress body :=
  fun b b' c _ e => h b c e ⟨b', rfl⟩

/-- A loop is its first round, followed by the loop again if that round asks for it. -/
theorem loop_eq {α β : Type} (body : β → Scan (Round β α)) (progress : Progress body) (b : β) :
    loop body progress b = (body b >>= fun
      | .again b' => loop body progress b'
      | .stop a => pure a : Scan α) := by
  funext cursor
  show _ = EStateM.bind _ _ cursor
  rw [loop]
  unfold EStateM.bind
  split
  · next h => simp [h]
  · next h => simp only [h]; rfl
  · next h => simp [h]

theorem shrinks_loop {α β : Type} {body : β → Scan (Round β α)} {progress : Progress body}
    (h : ∀ b, Shrinks (body b)) (b : β) : Shrinks (loop body progress b) := by
  intro cursor
  fun_induction loop body progress b cursor with
  | case1 b cursor b' cursor' e _ ih => exact Nat.le_trans ih (h b |>.ok e)
  | case2 b cursor a cursor' e => exact h b |>.ok e
  | case3 b cursor e' cursor' e => simpa [e, leftBy] using h b cursor

/-- A round that takes a character first makes progress, whatever it does with it. -/
theorem Progress.of_advance {α β : Type} {f : β → Char → Scan (Round β α)}
    {atEnd : β → α} (hf : ∀ b x, Shrinks (f b x)) :
    Progress (fun b => do
      match ← advance with
      | none => return .stop (atEnd b)
      | some x => f b x) := by
  intro b b' c c' h
  change EStateM.bind advance _ c = _ at h
  unfold EStateM.bind at h
  cases ha : advance c with
  | error e s => simp [ha] at h
  | ok o s =>
    cases o with
    | none => simp [ha] at h; cases h
    | some y =>
      simp only [ha] at h
      exact Nat.lt_of_le_of_lt ((hf b y).ok h) (advance_size_lt ha)

/-! ## Runs of characters -/

/-- One round of `eatWhile`: takes the character under the cursor if `p` holds of it. -/
def eatRound (p : Char → Bool) (count : Nat) : Scan (Round Nat Nat) := do
  match ← current with
  | none => return .stop count
  | some c =>
    if p c then
      let _ ← advance
      return .again (count + 1)
    else
      return .stop count

theorem shrinks_eatRound (p : Char → Bool) (count : Nat) : Shrinks (eatRound p count) :=
  .bind shrinks_current fun o => by
    cases o with
    | none => exact .pure _
    | some c => exact .ite (.bind shrinks_advance fun _ => .pure _) (.pure _)

/-- A round of `eatWhile` on a character of the class takes it and asks for another round. -/
theorem eatRound_of_sees {p : Char → Bool} {x : Char} {c : Cursor} (hs : Sees x c)
    (hp : p x = true) (count : Nat) :
    eatRound p count c =
      (advance >>= fun _ => pure (.again (count + 1)) : Scan (Round Nat Nat)) c := by
  change EStateM.bind current _ c = _
  simp only [EStateM.bind, hs.current, hp, if_true]

theorem progress_eatRound (p : Char → Bool) : Progress (eatRound p) :=
  .of_takesWhen fun _ _ =>
    .bind_current (fun _ => .pure (by simp)) fun _ _ hs =>
      .ite (fun _ => .of_takesAt ((TakesAt.advance hs).bind fun _ => .pure _))
        fun _ => .pure (by simp)

/-- Takes characters while `p` holds of the one under the cursor, and tells how many it took. -/
def eatWhile (p : Char → Bool) : Scan Nat := loop (eatRound p) (progress_eatRound p) 0

theorem shrinks_eatWhile (p : Char → Bool) : Shrinks (eatWhile p) :=
  shrinks_loop (shrinks_eatRound p) 0

theorem TakesAt.eatWhile {p : Char → Bool} {x : Char} {c : Cursor} (hs : Sees x c)
    (hp : p x = true) : TakesAt c (eatWhile p) := by
  intro n c' h
  rw [Scan.eatWhile, loop_eq] at h
  change EStateM.bind (eatRound p 0) _ c = _ at h
  rw [EStateM.bind, eatRound_of_sees hs hp] at h
  refine ((TakesAt.advance hs).bind fun _ => .pure _).bind (fun r => ?_) h
  cases r with
  | again b => exact shrinks_loop (shrinks_eatRound p) b
  | stop a => exact .pure a

end LuaLex.Scan
