import Mathlib.Data.List.Basic
import LuaLex.Proofs.Finality
import LuaLex.Proofs.Recovery

/-!
# Asking a lexer in turn

A lexer can be asked for the next token, or for the next answer of its stream. Both go on in the
same text, and only the stream remembers that it has ended. So whatever the order of the questions,
the tokens come in the order of the text.

* `Lexer.replies asks lexer`: the answers to a list of questions.
* `Lexer.eq_answer_of_replies`: the tokens that are handed out, in the order of the text.
* `Lexer.replies_eq_none_iff`: when the stream has nothing more to answer.
* `Lexer.exists_stream`, `Lexer.replies_replicate`: the stream is a list of tokens and a last
  answer, and then it has ended for good.
* `lexer_iterates`: all this together, for texts and for readers.
-/

namespace LuaLex

/-- The two ways of asking a lexer to go on. -/
inductive Ask where
  /-- For the next token, also behind the end. -/
  | nextToken
  /-- For the next answer of the stream. -/
  | next
  deriving Repr, DecidableEq

/-- The end of input of a text, when it is asked for once more: it has no trivia any more. -/
def Token.endOf (s : String) : Token :=
  let place := Position.origin.behind s.toList []
  ⟨.endOfInput, "", [], ⟨s.utf8ByteSize, s.utf8ByteSize, place.line, place.column⟩, none⟩

namespace Lexer

open Cursor (onText)

/-- What a lexer answers to a question, and the lexer behind it. -/
def reply (lexer : Lexer) : Ask → Option Outcome × Lexer
  | .nextToken => (some lexer.nextToken.1, lexer.nextToken.2)
  | .next => lexer.next?

/-- What a lexer answers to questions that are asked one after the other. -/
def replies : List Ask → Lexer → List (Option Outcome)
  | [], _ => []
  | ask :: asks, lexer => (lexer.reply ask).1 :: replies asks (lexer.reply ask).2

@[simp] theorem length_replies (asks : List Ask) (lexer : Lexer) :
    (replies asks lexer).length = asks.length := by
  induction asks generalizing lexer with
  | nil => rfl
  | cons ask asks ih => rw [replies, List.length_cons, List.length_cons, ih]

/-! ## One question -/

/-- Only the stream takes notice of whether it has ended. -/
theorem nextToken_finished (lexer : Lexer) (finished : Bool) :
    ({ lexer with finished } : Lexer).nextToken =
      (lexer.nextToken.1, { lexer.nextToken.2 with finished }) := by
  simp only [nextToken]
  cases token lexer.started lexer.cursor <;> rfl

theorem finished_nextToken (lexer : Lexer) : lexer.nextToken.2.finished = lexer.finished := by
  simp only [nextToken]
  cases token lexer.started lexer.cursor <;> rfl

theorem after_finished (n : Nat) (lexer : Lexer) (finished : Bool) :
    after n { lexer with finished } = { after n lexer with finished } := by
  induction n with
  | zero => rfl
  | succ n ih => rw [after, ih, nextToken_finished, after]

/-- **What a question does**: it has no answer and changes nothing, or it is answered with the next
token or fault. -/
theorem reply_cases (lexer : Lexer) (ask : Ask) :
    (lexer.reply ask = (none, lexer) ∧ ask = .next ∧ lexer.finished = true) ∨
      ∃ finished, lexer.reply ask =
          (some lexer.nextToken.1, { lexer.nextToken.2 with finished }) ∧
        (finished = true ↔ lexer.finished = true ∨ ask = .next ∧ lexer.nextToken.1.isLast = true) ∧
        ¬(ask = .next ∧ lexer.finished = true) := by
  cases ask with
  | nextToken =>
    refine Or.inr ⟨lexer.finished, ?_, by simp, by simp⟩
    rw [← finished_nextToken]
    rfl
  | next =>
    cases hfinished : lexer.finished with
    | true => exact Or.inl ⟨by simp only [reply, next?, hfinished, if_true], rfl, rfl⟩
    | false =>
      refine Or.inr ⟨lexer.nextToken.1.isLast, ?_, by simp, by simp⟩
      simp only [reply, next?, hfinished, Bool.false_eq_true, if_false]

/-! ## Any questions -/

/-- **Tokens and faults are handed out in their order**, whatever the questions. -/
theorem eq_answer_of_replies {asks : List Ask} {lexer : Lexer} {i : Nat} {outcome : Outcome}
    (h : ((replies asks lexer).filterMap id)[i]? = some outcome) : outcome = answer i lexer := by
  induction asks generalizing lexer i with
  | nil => simp [replies] at h
  | cons ask asks ih =>
    rw [replies] at h
    rcases reply_cases lexer ask with ⟨hreply, -⟩ | ⟨finished, hreply, -⟩
    · rw [hreply] at h
      exact ih h
    · rw [hreply, List.filterMap_cons_some (f := id) rfl] at h
      cases i with
      | zero => exact (Option.some.inj h).symm
      | succ i =>
        have houtcome : outcome = answer i { lexer.nextToken.2 with finished } := ih h
        rw [answer, after_finished, nextToken_finished, ← after_succ] at houtcome
        exact houtcome

/-- **The stream has ended exactly if it has handed out its last answer before.** -/
theorem replies_eq_none_iff (asks : List Ask) (lexer : Lexer) (k : Nat) :
    (replies asks lexer)[k]? = some none ↔
      asks[k]? = some .next ∧ (lexer.finished = true ∨ ∃ j < k, asks[j]? = some .next ∧
        ∃ outcome, (replies asks lexer)[j]? = some (some outcome) ∧ outcome.isLast = true) := by
  induction asks generalizing lexer k with
  | nil => simp [replies]
  | cons ask asks ih =>
    cases k with
    | zero =>
      rw [replies]
      rcases reply_cases lexer ask with ⟨hreply, rfl, hfinished⟩ | ⟨finished, hreply, -, hnot⟩
      · simp [hreply, hfinished]
      · simpa [hreply] using hnot
    | succ k =>
      rw [replies, List.getElem?_cons_succ, List.getElem?_cons_succ, ih, Nat.exists_lt_succ_left]
      simp only [List.getElem?_cons_zero, List.getElem?_cons_succ, Option.some.injEq]
      rcases reply_cases lexer ask with ⟨hreply, rfl, hfinished⟩ | ⟨finished, hreply, hiff, -⟩
      · simp [hreply, hfinished]
      · simp [hreply, hiff, or_assoc]

/-! ## Texts -/

/-- A lexer that stands behind a text goes on with its end. -/
theorem nextToken_endOf (s : String) (finished : Bool) :
    (⟨onText (Position.origin.behind s.toList []) [] [], true, finished⟩ : Lexer).nextToken =
      (.ok (.endOf s),
        ⟨onText (Position.origin.behind s.toList []) [] [], true, finished⟩) := by
  have hoffset : (Position.origin.behind s.toList []).offset = s.utf8ByteSize := by
    rw [Position.origin_behind_offset, byteLength_toList]
  rw [lexesToken_nil.nextToken_eq, Token.endOf, ← hoffset]
  rfl

section Texts

variable {s : String} {tokens : List Token}

/-- While there are tokens, they are the answers of the lexer. -/
theorem answer_of_getElem? {i : Nat} {t : Token} (h : tokenize s = .ok tokens)
    (ht : tokens[i]? = some t) : answer i (ofString s) = .ok t := by
  obtain ⟨hlt, rfl⟩ := List.getElem?_eq_some_iff.mp ht
  rw [← List.take_append_drop i tokens, List.drop_eq_getElem_cons hlt] at h
  obtain ⟨w, v, -, -, hnext, -⟩ := nextToken_of_tokenize h
  rw [List.length_take_of_le (Nat.le_of_lt hlt)] at hnext
  exact congrArg Prod.fst hnext

/-- When all tokens are handed out, the lexer stands behind the text. -/
theorem after_length (h : tokenize s = .ok tokens) (n : Nat) :
    after (tokens.length + n) (ofString s) =
      ⟨onText (Position.origin.behind s.toList []) [] [], true, false⟩ := by
  induction n with
  | zero =>
    obtain ⟨front, last, rfl, -, hlast⟩ := exists_last_of_tokenize h
    obtain ⟨w, v, hs, -, hnext, ⟨-, rfl⟩ | ⟨hend, -⟩⟩ := nextToken_of_tokenize h
    · rw [List.append_nil] at hs
      rw [Nat.add_zero, List.length_append, List.length_singleton, after, hnext, hs]
    · rw [hlast] at hend
      cases hend
  | succ n ih => rw [← Nat.add_assoc, after, ih, nextToken_endOf]

/-- Behind the last token the lexer hands out the end of the text, again and again. -/
theorem answer_of_length_le {i : Nat} (h : tokenize s = .ok tokens) (hi : tokens.length ≤ i) :
    answer i (ofString s) = .ok (.endOf s) := by
  rw [answer, ← Nat.add_sub_cancel' hi, after_length h, nextToken_endOf]

end Texts

/-! ## The stream -/

/-- **A stream is a list of tokens and one last answer.** -/
theorem exists_stream (c : Cursor) (started : Bool) :
    ∃ (front : List Token) (last : Outcome),
      (⟨c, started, false⟩ : Lexer).drain.1 = front.map .ok ++ [last] ∧
        (∀ t ∈ front, t.isEndOfInput = false) ∧ last.isLast = true := by
  induction hn : c.size using Nat.strongRecOn generalizing c started with
  | ind n ih =>
    rw [drain_unfinished]
    cases hc : token started c with
    | error e c' => exact ⟨[], .error e, rfl, by simp, rfl⟩
    | ok t c' =>
      cases ht : t.isEndOfInput with
      | true => exact ⟨[], .ok t, by simp only [ht, if_true]; rfl, by simp, ht⟩
      | false =>
        have hlt : c'.size < n := hn ▸ takesWhen_token started c hc (by simp [ht])
        obtain ⟨front, last, hdrain, hfront, hlast⟩ := ih _ hlt c' true rfl
        refine ⟨t :: front, last, ?_, List.forall_mem_cons.mpr ⟨ht, hfront⟩, hlast⟩
        simp only [ht, Bool.false_eq_true, if_false, hdrain]
        rfl

/-- The items of a stream are the answers to one question after the other. -/
theorem getElem?_drain_zero (lexer : Lexer) : lexer.drain.1[0]? = lexer.next?.1 := by
  rw [drain_eq]
  rcases lexer.next? with ⟨_ | outcome, lexer'⟩ <;> rfl

theorem getElem?_drain_succ (lexer : Lexer) (i : Nat) :
    lexer.drain.1[i + 1]? = lexer.next?.2.drain.1[i]? := by
  rcases reply_cases lexer .next with ⟨hnext, -⟩ | ⟨finished, hnext, -⟩
  · -- a stream that has ended stays where it is
    have hended : lexer.drain.1 = [] := by
      rw [drain_eq]
      simp only [show lexer.next? = _ from hnext]
    rw [show lexer.next? = _ from hnext, hended]
    rfl
  · rw [drain_eq]
    simp only [show lexer.next? = _ from hnext, List.getElem?_cons_succ]

/-- Asked for its stream again and again, a lexer answers with the items of the stream, and with
nothing when there are no more. -/
theorem replies_replicate (n : Nat) (lexer : Lexer) :
    replies (List.replicate n .next) lexer = (List.range n).map fun i => lexer.drain.1[i]? := by
  induction n generalizing lexer with
  | zero => rfl
  | succ n ih =>
    rw [List.replicate_succ, replies, ih, List.range_succ_eq_map, List.map_cons, List.map_map,
      getElem?_drain_zero]
    refine congrArg (lexer.next?.1 :: ·) (List.map_congr_left fun i _ => ?_)
    exact (getElem?_drain_succ lexer i).symm

/-! ## How long a stream is -/

/-- No token but the end of input is without characters. -/
theorem chars_ne_nil_of_tokenize {s : String} {tokens : List Token} {t : Token}
    (h : tokenize s = .ok tokens) (ht : t ∈ tokens) (hend : t.isEndOfInput = false) :
    t.chars ≠ [] := by
  have hitem : t.item ∈ itemsOf tokens := List.mem_flatMap.mpr ⟨t, ht, by simp [Token.items]⟩
  intro hnil
  rw [Token.chars_eq, List.append_eq_nil_iff, String.toList_eq_nil_iff] at hnil
  have hkind : t.item.kind = .token .endOfInput := (filled_of_tokenize h hitem).mp hnil.2
  simp [Token.isEndOfInput, ItemKind.token.inj hkind] at hend

theorem length_le_flatMap_chars {ts : List Token} (h : ∀ t ∈ ts, t.chars ≠ []) :
    ts.length ≤ (ts.flatMap Token.chars).length := by
  induction ts with
  | nil => exact Nat.le_refl _
  | cons t ts ih =>
    obtain ⟨ht, hts⟩ := List.forall_mem_cons.mp h
    rw [List.length_cons, List.flatMap_cons, List.length_append, Nat.add_comm]
    exact Nat.add_le_add (List.length_pos_iff.mpr ht) (ih hts)

/-- A text has at most as many tokens in front of its end as it has characters. -/
theorem length_le_of_tokenize {s : String} {front back : List Token}
    (h : tokenize s = .ok (front ++ back)) (hfront : ∀ t ∈ front, t.isEndOfInput = false) :
    front.length ≤ s.toList.length := by
  have hfilled : ∀ t ∈ front, t.chars ≠ [] := fun t ht =>
    chars_ne_nil_of_tokenize h (List.mem_append_left back ht) (hfront t ht)
  calc front.length
      ≤ (front.flatMap Token.chars).length := length_le_flatMap_chars hfilled
    _ ≤ ((front ++ back).flatMap Token.chars).length := by
        rw [List.flatMap_append, List.length_append]
        exact Nat.le_add_right _ _
    _ = s.toList.length := by rw [← toList_reconstruct, reconstruct_of_tokenize h]

/-- The tokens of a stream in front of its last answer begin its tokens. -/
theorem exists_back_of_drain {lexer : Lexer} {tokens front : List Token} {last : Outcome}
    (htokens : lexer.tokens = .ok tokens) (h : lexer.drain.1 = front.map .ok ++ [last]) :
    ∃ back, tokens = front ++ back := by
  obtain ⟨front', back, rfl, hfront, -⟩ :=
    List.map_eq_append_iff.mp ((drain_of_tokens htokens).symm.trans h)
  exact ⟨back, by rw [List.map_injective_iff.mpr (fun _ _ => Except.ok.inj) hfront]⟩

/-- The tokens of a stream in front of its last answer begin the tokens of the text in front of the
first fault. -/
theorem exists_tokenize_of_drain {chars : List Char} {tail : Feed}
    (htail : tail = [] ∨ ∃ e more, tail = .error e :: more) {front : List Token} {last : Outcome}
    (h : (ofSource (.ofFeed (chars.map .ok ++ tail))).drain.1 = front.map .ok ++ [last]) :
    ∃ back, tokenize (String.ofList chars) = .ok (front ++ back) := by
  rcases htail with rfl | ⟨e, more, rfl⟩
  · obtain ⟨ts, hlexes⟩ := exists_lexes false chars
    have hstep := inStep_ofFeed chars [] []
    rw [List.append_nil chars] at hstep
    obtain ⟨back, hback⟩ := exists_back_of_drain (tokens_of_inStep hlexes hstep) h
    exact ⟨back, hback ▸ tokenize_of_lexes (by rwa [String.toList_ofList])⟩
  · obtain ⟨front', hdrain, hstands⟩ := exists_stands (String.ofList chars) e more
    rw [String.toList_ofList] at hdrain
    obtain ⟨hfront, -⟩ := List.append_inj' (hdrain.symm.trans h) rfl
    obtain rfl : front' = front := List.map_injective_iff.mpr (fun _ _ => Except.ok.inj) hfront
    obtain ⟨rest, hrest, -⟩ := hstands.complete
    exact ⟨rest, hrest⟩

end Lexer

/-! ## All together -/

/-- The replies to questions about the text `s`, whose tokens are `tokens`. -/
structure InTurn (s : String) (tokens : List Token) (asks : List Ask)
    (replies : List (Option Outcome)) : Prop where
  /-- Every question has a reply. -/
  length_eq : replies.length = asks.length
  /-- The answers are the tokens in the order of the text, and behind the last one its end. -/
  in_order : ∀ (i : Nat) outcome, (replies.filterMap id)[i]? = some outcome →
    ∃ t, outcome = .ok t ∧ (i < tokens.length → tokens[i]? = some t) ∧
      (tokens.length ≤ i → t = .endOf s)
  /-- There is no answer exactly when the stream has handed out the end of input before. -/
  none_iff : ∀ k : Nat, replies[k]? = some none ↔
    asks[k]? = some .next ∧ ∃ j < k, asks[j]? = some .next ∧
      ∃ t, replies[j]? = some (some (.ok t)) ∧ t.isEndOfInput = true

/-- The stream of a lexer on a source of which `decoded` stands in front of the first fault: some
tokens, one last answer, and then nothing any more. -/
structure Streams (decoded : List Char) (lexer : Lexer) (front : List Token) (last : Outcome) :
    Prop where
  not_last : ∀ t ∈ front, t.isEndOfInput = false
  is_last : last.isLast = true
  bounded : front.length ≤ decoded.length
  /-- However often the stream is asked, these are its answers. -/
  replies_eq : ∀ n, Lexer.replies (List.replicate n .next) lexer =
    (List.range n).map fun i => (front.map .ok ++ [last])[i]?
  /-- All tokens at once are those of the stream, if its last answer is not a fault. -/
  tokens_eq : lexer.tokens = last.map fun t => front ++ [t]

section Texts

open Lexer

variable {s : String} {tokens : List Token}

/-- A lexer on a text answers with tokens only. -/
theorem exists_answer (h : tokenize s = .ok tokens) (i : Nat) :
    ∃ t, answer i (ofString s) = .ok t ∧
      (i < tokens.length → tokens[i]? = some t) ∧ (tokens.length ≤ i → t = .endOf s) := by
  rcases Nat.lt_or_ge i tokens.length with hlt | hge
  · have ht := List.getElem?_eq_getElem hlt
    exact ⟨_, answer_of_getElem? h ht, fun _ => ht, fun hge => absurd hlt (Nat.not_lt.mpr hge)⟩
  · exact ⟨_, answer_of_length_le h hge, fun hlt => absurd hlt (Nat.not_lt.mpr hge), fun _ => rfl⟩

/-- Whatever a text is asked, its tokens come in turn. -/
theorem inTurn_replies (h : tokenize s = .ok tokens) (asks : List Ask) :
    InTurn s tokens asks (replies asks (ofString s)) := by
  have hturn : ∀ (i : Nat) outcome,
      ((replies asks (ofString s)).filterMap id)[i]? = some outcome →
        ∃ t, outcome = .ok t ∧ (i < tokens.length → tokens[i]? = some t) ∧
          (tokens.length ≤ i → t = .endOf s) := by
    intro i outcome hi
    obtain ⟨t, ht, hi'⟩ := exists_answer h i
    exact ⟨t, (eq_answer_of_replies hi).trans ht, hi'⟩
  refine ⟨length_replies asks _, hturn, fun k => ?_⟩
  rw [replies_eq_none_iff]
  constructor
  · rintro ⟨hk, hfinished | ⟨j, hj, hask, outcome, hreply, hlast⟩⟩
    · cases hfinished
    · -- the answer is a token, as all answers are
      have hmem : outcome ∈ (replies asks (ofString s)).filterMap id :=
        List.mem_filterMap.mpr ⟨_, List.mem_of_getElem? hreply, rfl⟩
      obtain ⟨i, hi⟩ := List.mem_iff_getElem?.mp hmem
      obtain ⟨t, rfl, -⟩ := hturn i outcome hi
      exact ⟨hk, j, hj, hask, t, hreply, hlast⟩
  · rintro ⟨hk, j, hj, hask, t, hreply, hend⟩
    exact ⟨hk, Or.inr ⟨j, hj, hask, .ok t, hreply, hend⟩⟩

end Texts

/-- A stream whose tokens are the first ones of a text is not longer than that text. -/
theorem streams_of_drain {s : String} {lexer : Lexer} {front back : List Token} {last : Outcome}
    (hdrain : lexer.drain.1 = front.map .ok ++ [last])
    (hfront : ∀ t ∈ front, t.isEndOfInput = false) (hlast : last.isLast = true)
    (htokens : tokenize s = .ok (front ++ back)) : Streams s.toList lexer front last where
  not_last := hfront
  is_last := hlast
  bounded := Lexer.length_le_of_tokenize htokens hfront
  replies_eq n := by rw [Lexer.replies_replicate, hdrain]
  tokens_eq := by rw [Lexer.tokens, hdrain, Lexer.mapM_stream]

/-- The characters of a feed in front of its first fault. -/
def Feed.leading : Feed → List Char
  | .ok c :: feed => c :: leading feed
  | _ => []

theorem Feed.leading_append {chars : List Char} {tail : Feed}
    (htail : tail = [] ∨ ∃ e more, tail = .error e :: more) :
    Feed.leading (chars.map .ok ++ tail) = chars := by
  induction chars with
  | nil => rcases htail with rfl | ⟨e, more, rfl⟩ <;> rfl
  | cons c chars ih => exact congrArg (c :: ·) ih

/-- **How a lexer iterates.** Whatever a lexer on a text is asked and in which order, its tokens are
those of the text in their order and then the end of it, and its stream is silent exactly when it
has handed out the end before. The stream of every text and of every reader is some tokens, not more
than there are characters, one last answer, and then nothing for ever; so `tokenize` and
`tokenizeScript` always have a result, and the end of input is the last of its tokens and no other.
-/
theorem lexer_iterates :
    (∀ s, ∃ tokens, tokenize s = .ok tokens ∧
      ∀ asks, InTurn s tokens asks (Lexer.replies asks (.ofString s))) ∧
    (∀ s, ∃ front last, Streams s.toList (.ofString s) front last) ∧
    ∀ script : Script, ∃ front last,
      Streams (Feed.leading script.feed) (.ofScript script) front last := by
  refine ⟨fun s => ?_, fun s => ?_, fun script => ?_⟩
  · obtain ⟨tokens, h⟩ := exists_tokenize s
    exact ⟨tokens, h, inTurn_replies h⟩
  · obtain ⟨front, last, hdrain, hfront, hlast⟩ :=
      Lexer.exists_stream (.ofSource (.ofString s)) false
    obtain ⟨tokens, h⟩ := exists_tokenize s
    obtain ⟨back, rfl⟩ := Lexer.exists_back_of_drain h hdrain
    exact ⟨front, last, streams_of_drain hdrain hfront hlast h⟩
  · obtain ⟨chars, tail, hfeed, htail⟩ := exists_feed_split script.feed
    obtain ⟨front, last, hdrain, hfront, hlast⟩ :=
      Lexer.exists_stream (.ofSource (.ofFeed (chars.map .ok ++ tail))) false
    obtain ⟨back, htokens⟩ := Lexer.exists_tokenize_of_drain htail hdrain
    have hstreams := streams_of_drain hdrain hfront hlast htokens
    rw [String.toList_ofList] at hstreams
    refine ⟨front, last, ?_⟩
    rw [Lexer.ofScript, Source.ofScript, hfeed, Feed.leading_append htail]
    exact hstreams

/-- The end that `nextToken` hands out does not end the stream. -/
example : (Lexer.replies [.nextToken, .next, .next, .nextToken] (.ofString "")).map (·.isSome) =
    [true, true, false, true] := by
  cbv

end LuaLex
