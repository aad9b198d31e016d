import LuaLex.Proofs.Lexing
import LuaLex.Proofs.Lockstep
import LuaLex.Proofs.Utf8Text

/-!
# Lexing from a reader

A reader is lexed as the text that comes out when its source is drained, character by character and
without looking ahead. If draining it meets a fault, lexing ends with that fault.

* `Source.drain`: draining a source to its end or to its first fault.
* `tokenizeScript_of_feed`, `tokenizeScript_of_fault`: lexing readers without and with a fault.
* `drain_of_tokens`, `drain_of_inStep_fault`: the answers behind the one and the other.
* `tokenizeScript_eq_drain`: lexing from a reader is lexing what draining it yields.
* `tokenizeScript_of_stream`: how the bytes of a text are split between reads does not matter.
-/

namespace LuaLex

namespace Source

/-- All characters of a source, taken one after the other, or the first fault. -/
def drain (s : Source) : Except Fault (List Char) :=
  match h : s.next with
  | .ok none _ => .ok []
  | .ok (some c) t =>
    have := next_size_lt h
    t.drain.map (c :: ·)
  | .error e _ => .error e
termination_by s.size

/-- Draining goes over the characters in front and then goes on. -/
theorem drain_chars (chars : List Char) (tail : Feed) :
    (reader [] (chars.map .ok ++ tail)).drain = (reader [] tail).drain.map (chars ++ ·) := by
  induction chars with
  | nil =>
    show (reader [] tail).drain = _
    cases (reader [] tail).drain <;> rfl
  | cons c chars ih =>
    rw [drain]
    show Except.map _ (reader [] (chars.map .ok ++ tail)).drain = _
    rw [ih]
    cases (reader [] tail).drain <;> rfl

theorem drain_end : (reader [] []).drain = .ok [] := by
  rw [drain]
  rfl

theorem drain_fault (e : Fault) (more : Feed) :
    (reader [] (.error e :: more)).drain = .error e := by
  rw [drain]
  rfl

end Source

/-- A feed is a run of characters that is all of it or is followed by a fault. -/
theorem exists_feed_split (feed : Feed) :
    ∃ (chars : List Char) (tail : Feed), feed = chars.map .ok ++ tail ∧
      (tail = [] ∨ ∃ e more, tail = .error e :: more) := by
  induction feed with
  | nil => exact ⟨[], [], rfl, Or.inl rfl⟩
  | cons item feed ih =>
    cases item with
    | ok c =>
      obtain ⟨chars, tail, rfl, htail⟩ := ih
      exact ⟨c :: chars, tail, rfl, htail⟩
    | error e => exact ⟨[], .error e :: feed, rfl, Or.inr ⟨e, feed, rfl⟩⟩

namespace Lexer

open Cursor (InStep onText)

/-- A reader in step with a text takes the token that is lexed there, or meets its fault. -/
theorem LexesToken.lockstep {tail : Feed} {beyond : List Char} (hends : Ends tail beyond)
    {c : Cursor} {p : Position} {started : Bool} {cs rest : List Char} {t : Token}
    (ht : LexesToken started cs t rest) (h : InStep tail beyond c (onText p [] cs)) :
    (∃ c', token started c = .ok (t.placed p rest) c' ∧
        InStep tail beyond c' (onText (p.behind t.chars rest) [] rest)) ∨
      ∃ e c', token started c = .error e c' ∧ tail.head? = some (.error e) :=
  (lockstep_token hends started).beside h (ht.run p)

/-- A reader without faults has the tokens of its text. -/
theorem tokens_of_inStep {c : Cursor} {p : Position} {started : Bool} {cs : List Char}
    {ts : List Token} (hlexes : Lexes started cs ts) (h : InStep [] [] c (onText p [] cs)) :
    (⟨c, started, false⟩ : Lexer).tokens = .ok (layOutTokens p [] ts) := by
  rw [← hlexes.tokens_eq p]
  induction hlexes generalizing c p with
  | @last started cs t ht hend =>
    have hend' : (t.placed p []).isEndOfInput = true := hend
    rcases ht.lockstep (Or.inl ⟨rfl, rfl⟩) h with ⟨c', hc, -⟩ | ⟨e, _, _, he⟩
    · rw [Lexer.tokens_eq, Lexer.tokens_eq, hc, ht.run p]
      simp only [hend', if_true]
    · cases he
  | @more started cs rest t ts ht hend hts ih =>
    rcases ht.lockstep (Or.inl ⟨rfl, rfl⟩) h with ⟨c', hc, h'⟩ | ⟨e, _, _, he⟩
    · rw [Lexer.tokens_eq, Lexer.tokens_eq, hc, ht.run p]
      simp only [ih h']
    · cases he

/-- A reader with a fault hands out some tokens and then that fault. The text on the other side must
not end where the fault stands, or the end of input would be found there. -/
theorem drain_of_inStep_fault {e : Fault} {more : Feed} {x : Char} {c : Cursor} {p : Position}
    {started : Bool} {cs : List Char} (h : InStep (.error e :: more) [x] c (onText p [] cs)) :
    ∃ front : List Token,
      (⟨c, started, false⟩ : Lexer).drain.1 = front.map .ok ++ [.error e] := by
  induction hn : cs.length using Nat.strongRecOn generalizing c p started cs with
  | ind n ih =>
    obtain ⟨t, rest, ht⟩ := exists_lexesToken started cs
    rcases ht.lockstep (Or.inr ⟨e, more, rfl⟩) h with ⟨c', hc, h'⟩ | ⟨e', c', hc, he⟩
    · have hend : (t.placed p rest).isEndOfInput = false := by
        cases hend : t.isEndOfInput with
        | false => exact hend
        | true =>
          obtain ⟨ahead, chars, -, hrest⟩ := h'.source
          obtain rfl := ht.rest_eq_nil hend
          simp [onText] at hrest
      obtain ⟨front, hfront⟩ : ∃ front : List Token,
          (⟨c', true, false⟩ : Lexer).drain.1 = front.map .ok ++ [.error e] :=
        ih _ (hn ▸ ht.length_lt hend) h' rfl
      refine ⟨t.placed p rest :: front, ?_⟩
      rw [drain_unfinished, hc]
      simp only [hend, Bool.false_eq_true, if_false, hfront]
      rfl
    · obtain rfl : e = e' := by simpa using he
      refine ⟨[], ?_⟩
      rw [drain_unfinished, hc]
      rfl

/-- A stream without a fault is made of its tokens. -/
theorem eq_map_of_mapM {outcomes : List Outcome} {ts : List Token}
    (h : outcomes.mapM id = .ok ts) : outcomes = ts.map .ok := by
  induction outcomes generalizing ts with
  | nil =>
    cases h
    rfl
  | cons outcome outcomes ih =>
    rw [List.mapM_cons] at h
    cases outcome with
    | error e => cases h
    | ok t =>
      cases hrest : outcomes.mapM id with
      | error e =>
        rw [hrest] at h
        cases h
      | ok ts' =>
        rw [hrest] at h
        cases h
        rw [ih hrest]
        rfl

theorem drain_of_tokens {lexer : Lexer} {ts : List Token} (h : lexer.tokens = .ok ts) :
    lexer.drain.1 = ts.map .ok := eq_map_of_mapM h

/-- The tokens of a stream, if its last answer is one. -/
theorem mapM_stream (front : List Token) (last : Outcome) :
    (front.map Except.ok ++ [last]).mapM id = last.map fun t => front ++ [t] := by
  induction front with
  | nil => cases last <;> rfl
  | cons t front ih =>
    rw [List.map_cons, List.cons_append, List.mapM_cons, ih]
    cases last <;> rfl

theorem tokens_of_inStep_fault {e : Fault} {more : Feed} {x : Char} {c : Cursor} {p : Position}
    {started : Bool} {cs : List Char} (h : InStep (.error e :: more) [x] c (onText p [] cs)) :
    (⟨c, started, false⟩ : Lexer).tokens = .error e := by
  obtain ⟨front, hfront⟩ := drain_of_inStep_fault h
  rw [tokens, hfront, mapM_stream]
  rfl

end Lexer

/-- The cursor of a reader at its beginning is in step with that of any text that begins with the
same characters. -/
theorem inStep_ofFeed (chars : List Char) (tail : Feed) (beyond : List Char) :
    Cursor.InStep tail beyond (.ofSource (.ofFeed (chars.map .ok ++ tail)))
      (.onText .origin [] (chars ++ beyond)) where
  source := ⟨[], chars, rfl, rfl⟩
  position := rfl
  start := rfl
  text := rfl

theorem inStep_ofScript {script : Script} {chars : List Char} {tail : Feed}
    (h : script.feed = chars.map .ok ++ tail) (beyond : List Char) :
    Cursor.InStep tail beyond (.ofSource (.ofScript script))
      (.onText .origin [] (chars ++ beyond)) := by
  rw [Source.ofScript, h]
  exact inStep_ofFeed chars tail beyond

theorem tokenizeScript_of_feed {script : Script} {chars : List Char}
    (h : script.feed = chars.map .ok) : tokenizeScript script = tokenize (String.ofList chars) := by
  obtain ⟨ts, hlexes⟩ := Lexer.exists_lexes false chars
  have hstep := inStep_ofScript (h.trans (List.append_nil _).symm) []
  rw [List.append_nil] at hstep
  rw [Lexer.tokenize_of_lexes (by rwa [String.toList_ofList])]
  exact Lexer.tokens_of_inStep hlexes hstep

theorem tokenizeScript_of_fault {script : Script} {chars : List Char} {e : Fault} {more : Feed}
    (h : script.feed = chars.map .ok ++ .error e :: more) : tokenizeScript script = .error e :=
  Lexer.tokens_of_inStep_fault (inStep_ofScript h ['x'])

/-- **Lexing from a reader refines lexing a text.** However the bytes arrive and wherever reads
fail, the tokens are those of the text that draining the source yields, and a fault that ends the
draining ends the lexing. -/
theorem tokenizeScript_eq_drain (script : Script) :
    tokenizeScript script =
      match (Source.ofScript script).drain with
      | .ok chars => tokenize (String.ofList chars)
      | .error e => .error e := by
  obtain ⟨chars, tail, hfeed, htail⟩ := exists_feed_split script.feed
  have hdrain : (Source.ofScript script).drain =
      (Source.reader [] tail).drain.map (chars ++ ·) := by
    rw [← Source.drain_chars, ← hfeed]
    rfl
  rw [hdrain]
  rcases htail with rfl | ⟨e, more, rfl⟩
  · rw [Source.drain_end, tokenizeScript_of_feed (hfeed.trans (List.append_nil _))]
    simp only [Except.map, List.append_nil]
  · rw [Source.drain_fault, tokenizeScript_of_fault hfeed]
    rfl

/-- A reader that delivers the bytes of a text, split in any way, is lexed as the text. -/
theorem tokenizeScript_of_stream {script : Script} {s : String}
    (h : script.stream = (utf8Bytes s).map .ok) : tokenizeScript script = tokenize s := by
  rw [tokenizeScript_of_feed (Script.feed_of_stream h), String.ofList_toList]

end LuaLex
