import LuaLex.Fault

/-!
# Character sources

A source hands out characters one at a time and lets the reader look at the next two without taking
them. There are two kinds: a text, which never fails, and a feed, in which decoding faults stand
between the characters. A feed keeps the characters that were looked at but not taken in a queue;
a fault met while looking ahead is reported once, and the characters in front of it stay queued.

* `Source.size` is what is left to hand out, faults included. No operation adds to it
  (`fill_size_le`, `peek_size_le`) and taking a character lowers it (`next_size_lt`).
-/

namespace LuaLex

/-- What decoding yields from beginning to end: characters, and faults where a step of decoding
failed. After its last item the input has ended. -/
abbrev Feed := List (Except Fault Char)

/-- The state a run leaves behind, whether it succeeded or failed. -/
def leftBy {ε σ α : Type} : EStateM.Result ε σ α → σ
  | .ok _ state => state
  | .error _ state => state

/-- A source of characters with room to look ahead. -/
inductive Source where
  /-- Text held in full. -/
  | text (rest : List Char)
  /-- Decoded input: `ahead` was looked at and not yet taken, `feed` is still to be decoded. -/
  | reader (ahead : List Char) (feed : Feed)

namespace Source

/-- The number of characters and faults still to be handed out. -/
def size : Source → Nat
  | text rest => rest.length
  | reader ahead feed => ahead.length + feed.length

/-- Text is handed out as it stands. -/
def ofString (s : String) : Source := text s.toList

/-- A feed is handed out from its first item, with nothing looked at yet. -/
def ofFeed (feed : Feed) : Source := reader [] feed

/-- Decodes until `n` characters are queued behind `ahead`, or the input ends. A fault ends the
attempt; it is used up, and what was decoded before it stays queued. -/
def fill (n : Nat) (ahead : List Char) : Feed → EStateM.Result Fault Source (List Char)
  | [] => .ok ahead (reader ahead [])
  | item :: feed =>
    if n ≤ ahead.length then .ok ahead (reader ahead (item :: feed))
    else match item with
      | .ok c => fill n (ahead ++ [c]) feed
      | .error e => .error e (reader ahead feed)

/-- The character `i` places ahead, `none` past the end of input; nothing is taken. -/
def peek (i : Nat) : EStateM Fault Source (Option Char)
  | text rest => .ok rest[i]? (text rest)
  | reader ahead feed =>
    match fill (i + 1) ahead feed with
    | .ok queue source => .ok queue[i]? source
    | .error e source => .error e source

/-- Takes the next character, `none` at the end of input. -/
def next : EStateM Fault Source (Option Char)
  | text [] => .ok none (text [])
  | text (c :: rest) => .ok (some c) (text rest)
  | reader (c :: ahead) feed => .ok (some c) (reader ahead feed)
  | reader [] [] => .ok none (reader [] [])
  | reader [] (.ok c :: feed) => .ok (some c) (reader [] feed)
  | reader [] (.error e :: feed) => .error e (reader [] feed)

/-- The text not yet taken; a feed does not know it. -/
def remaining? : Source → Option String
  | text rest => some (String.ofList rest)
  | reader _ _ => none

/-! ## What is left to hand out -/

/-- Looking ahead never adds to what is left: decoding only moves it into the queue, and a fault is
used up. -/
theorem fill_size_le (n : Nat) (ahead : List Char) (feed : Feed) :
    (leftBy (fill n ahead feed)).size ≤ ahead.length + feed.length := by
  induction feed generalizing ahead with
  | nil => simp [fill, leftBy, size]
  | cons item feed ih =>
    unfold fill
    split
    · simp [leftBy, size]
    · cases item with
      | ok c =>
        have := ih (ahead ++ [c])
        simp only [List.length_append, List.length_cons, List.length_nil] at this ⊢
        omega
      | error e => simp [leftBy, size]

theorem peek_size_le (i : Nat) (s : Source) : (leftBy (peek i s)).size ≤ s.size := by
  cases s with
  | text rest => simp [peek, leftBy]
  | reader ahead feed =>
    have h := fill_size_le (i + 1) ahead feed
    simp only [peek]
    cases hf : fill (i + 1) ahead feed <;> simpa [hf, leftBy, size] using h

theorem next_size_le (s : Source) : (leftBy (next s)).size ≤ s.size := by
  unfold next
  split <;> simp [leftBy, size]

/-- A character that is taken is no longer left. -/
theorem next_size_lt {s t : Source} {c : Char} (h : next s = .ok (some c) t) :
    t.size < s.size := by
  unfold next at h
  split at h <;> simp_all [size] <;> obtain ⟨_, rfl⟩ := h <;> simp

/-! ## Looking ahead and then taking -/

/-- The queue that looking ahead answers with is the queue it leaves, and it extends the one that
was there. -/
theorem fill_eq_ok {n : Nat} {ahead queue : List Char} {feed : Feed} {s : Source}
    (h : fill n ahead feed = .ok queue s) :
    ∃ feed', s = reader queue feed' ∧ ahead <+: queue := by
  induction feed generalizing ahead with
  | nil =>
    simp only [fill] at h
    injection h with hq hs
    exact ⟨[], by rw [← hs, hq], hq ▸ List.prefix_rfl⟩
  | cons item feed ih =>
    unfold fill at h
    split at h
    · injection h with hq hs
      exact ⟨item :: feed, by rw [← hs, hq], hq ▸ List.prefix_rfl⟩
    · cases item with
      | ok c =>
        obtain ⟨feed', hs, hp⟩ := ih h
        exact ⟨feed', hs, (List.prefix_append ahead [c]).trans hp⟩
      | error e => simp at h

theorem fill_one_cons (c : Char) (ahead : List Char) (feed : Feed) :
    fill 1 (c :: ahead) feed = .ok (c :: ahead) (reader (c :: ahead) feed) := by
  cases feed <;> simp [fill]

/-- A source that shows a next character, with no decoding left to be done for it. -/
def Shows (c : Char) : Source → Prop
  | text rest => rest.head? = some c
  | reader ahead _ => ahead.head? = some c

theorem Shows.peek {c : Char} {s : Source} (h : Shows c s) : peek 0 s = .ok (some c) s := by
  cases s with
  | text rest => simp [Source.peek, ← List.head?_eq_getElem?, show rest.head? = some c from h]
  | reader ahead feed =>
    obtain ⟨x, ahead, rfl⟩ : ∃ x l, ahead = x :: l := by
      cases ahead with
      | nil => simp [Shows] at h
      | cons x l => exact ⟨x, l, rfl⟩
    simp only [Shows, List.head?_cons, Option.some.injEq] at h
    simp [Source.peek, fill_one_cons, h]

theorem Shows.next {c : Char} {s : Source} (h : Shows c s) : ∃ t, next s = .ok (some c) t := by
  cases s with
  | text rest =>
    cases rest with
    | nil => simp [Shows] at h
    | cons x rest =>
      obtain rfl : x = c := by simpa [Shows] using h
      exact ⟨text rest, rfl⟩
  | reader ahead feed =>
    cases ahead with
    | nil => simp [Shows] at h
    | cons x ahead =>
      obtain rfl : x = c := by simpa [Shows] using h
      exact ⟨reader ahead feed, rfl⟩

/-- The character seen under the cursor stays in sight. -/
theorem shows_of_peek {s t : Source} {c : Char} (h : peek 0 s = .ok (some c) t) : Shows c t := by
  cases s with
  | text rest =>
    simp only [peek] at h
    injection h with hc ht
    subst ht
    simpa [Shows, List.head?_eq_getElem?] using hc
  | reader ahead feed =>
    simp only [peek] at h
    cases hf : fill (0 + 1) ahead feed with
    | error e s => simp [hf] at h
    | ok queue s =>
      obtain ⟨feed', rfl, _⟩ := fill_eq_ok hf
      simp only [hf] at h
      injection h with hq ht
      subst ht
      simpa [Shows, List.head?_eq_getElem?] using hq

/-- Looking further ahead does not move the character under the cursor out of sight. -/
theorem Shows.of_peek {s t : Source} {c : Char} {i : Nat} {o : Option Char} (hs : Shows c s)
    (h : Source.peek i s = .ok o t) : Shows c t := by
  cases s with
  | text rest =>
    simp only [Source.peek] at h
    injection h with _ ht
    exact ht ▸ hs
  | reader ahead feed =>
    simp only [Source.peek] at h
    cases hf : fill (i + 1) ahead feed with
    | error e s => simp [hf] at h
    | ok queue s =>
      obtain ⟨feed', rfl, l, rfl⟩ := fill_eq_ok hf
      simp only [hf] at h
      injection h with _ ht
      subst ht
      simp only [Shows] at hs ⊢
      simp [hs]

end Source

end LuaLex
