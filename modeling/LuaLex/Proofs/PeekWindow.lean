import LuaLex.Proofs.Bookkeeping
import LuaLex.Utf8

/-!
# Looking ahead loses nothing

A reader decodes one character after the other and queues those that were looked at. Whatever is
asked of it, in whatever order and whatever faults are met on the way, the characters that were
handed out and those in the queue are the ones that were decoded so far, and the faults that were
reported are the ones met while decoding them.

* `Source.Access`: what can be asked of a source; `Source.accessed`, `takenIn` and `faultsIn` say
  what any number of accesses leave, hand out and report.
* `Source.Decoded`: the source stands behind a part of its feed. Each access keeps this
  (`decoded_after`), and so do all of them (`decoded_accessed`).
* `takenIn_of_queue`: what is queued is handed out next.
* `lookahead_lossless`: all of it for a reader.
-/

namespace LuaLex

namespace Source

/-- What can be asked of a source: to show one of the next two characters, or to hand out the next
one. -/
inductive Access where
  | peek (i : Fin 2)
  | next
  deriving DecidableEq

namespace Access

/-- The run of an access; it answers with the character, `none` past the end of input. -/
def run : Access → EStateM Fault Source (Option Char)
  | peek i => Source.peek i
  | next => Source.next

/-- The source behind an access, whether that succeeds or fails. -/
def after (access : Access) (s : Source) : Source := leftBy (access.run s)

/-- The characters that an access hands out; what is only shown is not among them. -/
def taken : Access → Source → List Char
  | peek _, _ => []
  | next, s => takenBy (Source.next s)

/-- The fault that an access reports, if it does. -/
def faults (access : Access) (s : Source) : List Fault := metBy (access.run s)

end Access

/-- The source behind any number of accesses, of which each goes on where the one before it ended,
also behind a fault. -/
def accessed : List Access → Source → Source
  | [], s => s
  | access :: accesses, s => accessed accesses (access.after s)

/-- The characters that the accesses hand out. -/
def takenIn : List Access → Source → List Char
  | [], _ => []
  | access :: accesses, s => access.taken s ++ takenIn accesses (access.after s)

/-- The faults that the accesses report. -/
def faultsIn : List Access → Source → List Fault
  | [], _ => []
  | access :: accesses, s => access.faults s ++ faultsIn accesses (access.after s)

/-! ## One access -/

/-- What an access does: it decodes some items, hands out characters from the front of the queue,
and reports the faults among the items. -/
theorem access_reader (access : Access) {queue : List Char} (hqueue : queue.length ≤ 2)
    (rest : Feed) :
    ∃ done queue' rest', rest = done ++ rest' ∧
      access.after (reader queue rest) = reader queue' rest' ∧
      queue ++ Feed.chars done = access.taken (reader queue rest) ++ queue' ∧
      Feed.faults done = access.faults (reader queue rest) ∧ queue'.length ≤ 2 := by
  cases access with
  | peek i =>
    obtain ⟨hleft, hmet⟩ := peek_reader i queue rest
    obtain ⟨done, rest, rfl, hfill, hfaults, hlength⟩ := fill_decodes (i + 1) queue rest
    have hi := i.isLt
    exact ⟨done, _, rest, rfl, hleft.trans hfill, rfl, hfaults.trans hmet.symm, by omega⟩
  | next =>
    cases queue with
    | cons c queue =>
      rw [List.length_cons] at hqueue
      exact ⟨[], queue, rest, rfl, rfl, List.append_nil _, rfl, by omega⟩
    | nil =>
      cases rest with
      | nil => exact ⟨[], [], [], rfl, rfl, rfl, rfl, hqueue⟩
      | cons item rest =>
        cases item with
        | ok c => exact ⟨[.ok c], [], rest, rfl, rfl, rfl, rfl, hqueue⟩
        | error e => exact ⟨[.error e], [], rest, rfl, rfl, rfl, rfl, hqueue⟩

/-! ## Any number of accesses -/

/-- The source has decoded a part of the feed. The characters of that part were handed out or are
queued, and its faults were reported. -/
def Decoded (feed : Feed) (taken : List Char) (reported : List Fault) (s : Source) : Prop :=
  ∃ done queue rest, s = reader queue rest ∧ feed = done ++ rest ∧
    Feed.chars done = taken ++ queue ∧ Feed.faults done = reported ∧ queue.length ≤ 2

section Runs

variable {feed : Feed} {taken : List Char} {reported : List Fault} {s : Source}

theorem decoded_after (h : Decoded feed taken reported s) (access : Access) :
    Decoded feed (taken ++ access.taken s) (reported ++ access.faults s) (access.after s) := by
  obtain ⟨done, queue, rest, rfl, rfl, hchars, hfaults, hqueue⟩ := h
  obtain ⟨more, queue', rest', rfl, hafter, htaken, hmore, hqueue'⟩ :=
    access_reader access hqueue rest
  refine ⟨done ++ more, queue', rest', hafter, ?_, ?_, ?_, hqueue'⟩
  · rw [List.append_assoc]
  · rw [Feed.chars_append, hchars, List.append_assoc, htaken, List.append_assoc]
  · rw [Feed.faults_append, hfaults, hmore]

/-- **What was decoded was handed out or is queued**, after any number of accesses. -/
theorem decoded_accessed (h : Decoded feed taken reported s) (accesses : List Access) :
    Decoded feed (taken ++ takenIn accesses s) (reported ++ faultsIn accesses s)
      (accessed accesses s) := by
  induction accesses generalizing taken reported s with
  | nil => simpa only [takenIn, faultsIn, accessed, List.append_nil] using h
  | cons access accesses ih =>
    rw [takenIn, faultsIn, ← List.append_assoc, ← List.append_assoc]
    exact ih (decoded_after h access)

end Runs

/-- **What is queued is handed out next**, whatever is looked at before, and no fault comes in
between. -/
theorem takenIn_of_queue {accesses : List Access} {queue : List Char} {i : Nat}
    (hi : i < queue.length) (hcount : i < accesses.count .next) (rest : Feed) :
    (takenIn accesses (reader queue rest))[i]? = queue[i]? := by
  induction accesses generalizing queue i rest with
  | nil => cases hcount
  | cons access accesses ih =>
    cases access with
    | peek k =>
      obtain ⟨more, rest', -, hfill, -, -⟩ := fill_decodes (k + 1) queue rest
      rw [List.count_cons_of_ne (by simp)] at hcount
      have hlonger : i < (queue ++ Feed.chars more).length := by
        rw [List.length_append]
        omega
      rw [takenIn, Access.taken, List.nil_append, Access.after, Access.run,
        (peek_reader k queue rest).1, hfill, ih hlonger hcount, List.getElem?_append_left hi]
    | next =>
      rw [List.count_cons_self] at hcount
      cases queue with
      | nil => cases hi
      | cons c queue =>
        show (c :: takenIn accesses (reader queue rest))[i]? = _
        cases i with
        | zero => rfl
        | succ i =>
          rw [List.getElem?_cons_succ, List.getElem?_cons_succ]
          exact ih (Nat.lt_of_succ_lt_succ hi) (Nat.lt_of_succ_lt_succ hcount) rest

/-- A reader shows what is in its queue. -/
theorem exists_queue_of_peek {i : Nat} {queue : List Char} {rest : Feed} {c : Char} {t : Source}
    (h : peek i (reader queue rest) = .ok (some c) t) :
    ∃ queue' rest', t = reader queue' rest' ∧ queue'[i]? = some c := by
  simp only [peek] at h
  cases hfill : fill (i + 1) queue rest with
  | error e u => simp [hfill] at h
  | ok queue' u =>
    obtain ⟨rest', rfl, -⟩ := fill_eq_ok hfill
    simp only [hfill] at h
    injection h with hc ht
    exact ⟨queue', rest', ht.symm, hc⟩

/-- Handing out character after character, going on behind faults, comes to the end of the feed. -/
theorem drained_by_next (feed : Feed) {n : Nat} (hn : feed.length ≤ n) :
    takenIn (List.replicate n .next) (reader [] feed) = Feed.chars feed ∧
      faultsIn (List.replicate n .next) (reader [] feed) = Feed.faults feed := by
  induction n generalizing feed with
  | zero =>
    obtain rfl := List.length_eq_zero_iff.mp (Nat.le_zero.mp hn)
    exact ⟨rfl, rfl⟩
  | succ n ih =>
    rw [List.replicate_succ]
    cases feed with
    | nil => exact ih [] (Nat.zero_le n)
    | cons item feed =>
      obtain ⟨htaken, hfaults⟩ := ih feed (Nat.le_of_succ_le_succ hn)
      cases item with
      | ok c => exact ⟨congrArg (c :: ·) htaken, hfaults⟩
      | error e => exact ⟨htaken, congrArg (e :: ·) hfaults⟩

end Source

/-! ## The bytes behind the queue -/

namespace Utf8

theorem takeBytes_suffix (offset n : Nat) (stream : ByteStream) :
    (takeBytes offset n stream).2 <:+ stream := by
  fun_induction takeBytes offset n stream with
  | case1 => exact List.suffix_rfl
  | case2 => exact List.suffix_rfl
  | case3 => exact List.suffix_cons _ _
  | case4 n byte stream bytes rest h ih =>
    rw [h] at ih
    exact ih.trans (List.suffix_cons _ _)
  | case5 n byte stream e rest h ih =>
    rw [h] at ih
    exact ih.trans (List.suffix_cons _ _)

theorem decodeAfter_suffix (offset : Nat) (first : UInt8) (stream : ByteStream) :
    (decodeAfter offset first stream).2 <:+ stream := by
  unfold decodeAfter
  cases width first with
  | zero => exact List.suffix_rfl
  | succ n =>
    have h := takeBytes_suffix offset n stream
    simp only
    split
    · simp_all
    · split <;> simp_all

/-- Behind some of its items, a feed is what the bytes behind them decode to. The offset has moved
by the characters among these items. -/
theorem exists_decode_of_append {offset : Nat} {stream : ByteStream} {done rest : Feed}
    (h : decode offset stream = done ++ rest) :
    ∃ stream', stream' <:+ stream ∧
      rest = decode (offset + byteLength (Feed.chars done)) stream' := by
  induction done generalizing offset stream with
  | nil => exact ⟨stream, List.suffix_rfl, h.symm⟩
  | cons item done ih =>
    cases stream with
    | nil =>
      rw [decode_nil] at h
      cases h
    | cons arrival stream =>
      cases arrival with
      | error reason =>
        rw [decode_error] at h
        obtain ⟨rfl, htail⟩ := List.cons.inj h
        obtain ⟨stream', hsuffix, hrest⟩ := ih htail
        exact ⟨stream', hsuffix.trans (List.suffix_cons _ _), hrest⟩
      | ok first =>
        have hbehind := decodeAfter_suffix offset first stream
        rw [decode_ok] at h
        cases hd : decodeAfter offset first stream with
        | mk outcome behind =>
          rw [hd] at h hbehind
          cases outcome with
          | ok c =>
            obtain ⟨rfl, htail⟩ := List.cons.inj h
            obtain ⟨stream', hsuffix, hrest⟩ := ih htail
            refine ⟨stream', hsuffix.trans (hbehind.trans (List.suffix_cons _ _)), ?_⟩
            rw [hrest, Feed.chars, byteLength_cons, Nat.add_assoc]
          | error e =>
            obtain ⟨rfl, htail⟩ := List.cons.inj h
            obtain ⟨stream', hsuffix, hrest⟩ := ih htail
            exact ⟨stream', hsuffix.trans (hbehind.trans (List.suffix_cons _ _)), hrest⟩

end Utf8

/-! ## Readers -/

namespace Source

/-- What a reader that has been accessed holds: the characters in its queue and the items it has yet
to decode. -/
structure Faithful (script : Script) (accesses : List Access) (queue : List Char) (rest : Feed) :
    Prop where
  accessed_eq : accessed accesses (ofScript script) = reader queue rest
  queue_le : queue.length ≤ 2
  /-- What was handed out and what is queued are the first of the decoded characters. -/
  chars_prefix : takenIn accesses (ofScript script) ++ queue <+: Feed.chars script.feed
  /-- What was reported are the first of the faults, each once. -/
  faults_prefix : faultsIn accesses (ofScript script) <+: Feed.faults script.feed
  /-- The rest of them is still to come. -/
  chars_eq : Feed.chars script.feed =
    takenIn accesses (ofScript script) ++ queue ++ Feed.chars rest
  faults_eq : Feed.faults script.feed = faultsIn accesses (ofScript script) ++ Feed.faults rest
  /-- It is decoded from the bytes that are left, and the offset in its faults counts the characters
  that were handed out and those in the queue. -/
  rest_eq : ∃ stream, stream <:+ script.stream ∧
    rest = Utf8.decode (byteLength (takenIn accesses (ofScript script) ++ queue)) stream
  /-- A character that is shown is handed out in its turn, whatever is asked before. -/
  shown : ∀ (i : Fin 2) c t later, Source.peek i (reader queue rest) = .ok (some c) t →
    i.val < later.count Access.next → (takenIn later t)[i.val]? = some c

/-- **Looking ahead loses, repeats and reorders nothing**, across any faults. What a reader hands
out and what it holds in its queue are the characters of its script in their order, and it reports
the faults of its script in their order; asking for one character after the other gives them all. -/
theorem lookahead_lossless (script : Script) :
    (∀ accesses, ∃ queue rest, Faithful script accesses queue rest) ∧
      ∀ n, script.feed.length ≤ n →
        takenIn (List.replicate n .next) (ofScript script) = Feed.chars script.feed ∧
          faultsIn (List.replicate n .next) (ofScript script) = Feed.faults script.feed := by
  refine ⟨fun accesses => ?_, fun n hn => drained_by_next script.feed hn⟩
  have hstart : Decoded script.feed [] [] (ofScript script) :=
    ⟨[], [], script.feed, rfl, rfl, rfl, rfl, Nat.zero_le 2⟩
  obtain ⟨done, queue, rest, haccessed, hfeed, hchars, hfaults, hqueue⟩ :=
    decoded_accessed hstart accesses
  rw [List.nil_append] at hchars hfaults
  have hall : Feed.chars script.feed =
      takenIn accesses (ofScript script) ++ queue ++ Feed.chars rest := by
    rw [hfeed, Feed.chars_append, hchars]
  have hmet : Feed.faults script.feed =
      faultsIn accesses (ofScript script) ++ Feed.faults rest := by
    rw [hfeed, Feed.faults_append, hfaults]
  refine ⟨queue, rest, ?_⟩
  constructor
  case accessed_eq => exact haccessed
  case queue_le => exact hqueue
  case chars_prefix => exact ⟨Feed.chars rest, hall.symm⟩
  case faults_prefix => exact ⟨Feed.faults rest, hmet.symm⟩
  case chars_eq => exact hall
  case faults_eq => exact hmet
  case rest_eq =>
    obtain ⟨stream, hsuffix, hrest⟩ := Utf8.exists_decode_of_append hfeed
    rw [Nat.zero_add, hchars] at hrest
    exact ⟨stream, hsuffix, hrest⟩
  case shown =>
    intro i c t later hpeek hcount
    obtain ⟨queue', rest', rfl, hc⟩ := exists_queue_of_peek hpeek
    obtain ⟨hi, -⟩ := List.getElem?_eq_some_iff.mp hc
    rw [takenIn_of_queue hi hcount, hc]

/-- A fault is reported once by looking past the first character, which is handed out all the
same. -/
example (e : Fault) :
    takenIn [.peek 1, .next, .next] (ofFeed [.ok 'a', .error e, .ok 'b']) = ['a', 'b'] ∧
      faultsIn [.peek 1, .next, .next] (ofFeed [.ok 'a', .error e, .ok 'b']) = [e] :=
  ⟨rfl, rfl⟩

end Source

end LuaLex
