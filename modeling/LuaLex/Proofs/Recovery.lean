import LuaLex.Proofs.AnySource
import LuaLex.Proofs.LexerPlaces

/-!
# Going on after faults

A lexer that reports a fault can be asked for the next token as if nothing had happened. What was
taken for the dropped token is gone, but no character behind it is, and the tokens that come later
stand where their characters stand among all decoded ones.

* `Lexer.answer n lexer`: what the lexer hands out when it is asked for the `n`-th time.
* `passed_between`, `faults_after`: the cursor and the reported faults account for the feed after
  any number of tokens and faults.
* `size_nextToken`, `size_after`: every answer leaves less to come, until nothing is left.
* `lexing_recovers`: what the answers are on every reader.
-/

namespace LuaLex

/-- The fault that an answer reports, if it does. -/
def Outcome.faults : Outcome → List Fault
  | .ok _ => []
  | .error e => [e]

namespace Lexer

open Cursor (Passed Spanned)

/-! ## Answers -/

/-- What a lexer hands out when it is asked for the `n`-th time, counted from zero. -/
def answer (n : Nat) (lexer : Lexer) : Outcome := (after n lexer).nextToken.1

/-- The faults that a lexer reports in its first `n` answers. -/
def reported : Nat → Lexer → List Fault
  | 0, _ => []
  | n + 1, lexer => reported n lexer ++ (answer n lexer).faults

section Steps

variable {lexer lexer' : Lexer} {t : Token}

theorem token_of_nextToken (h : lexer.nextToken = (.ok t, lexer')) :
    token lexer.started lexer.cursor = .ok t lexer'.cursor := by
  unfold nextToken at h
  cases e : token lexer.started lexer.cursor with
  | ok u d =>
    simp only [e] at h
    cases h
    rfl
  | error x d =>
    simp only [e] at h
    cases h

/-- A token that is handed out covers what was taken for it. -/
theorem spanned_nextToken (h : lexer.nextToken = (.ok t, lexer')) :
    Spanned t.items lexer.cursor lexer'.cursor :=
  spanned_token (token_of_nextToken h)

/-- An answer accounts for what was taken, whatever it is. -/
theorem passed_nextToken (lexer : Lexer) :
    (∃ w, Passed w lexer.cursor lexer.nextToken.2.cursor) ∧
      lexer.cursor.source.faults =
        lexer.nextToken.1.faults ++ lexer.nextToken.2.cursor.source.faults := by
  have hpassed := (accounts_token lexer.started).passed lexer.cursor
  have hmeets := (accounts_token lexer.started).meets lexer.cursor
  unfold nextToken
  cases e : token lexer.started lexer.cursor with
  | ok u d =>
    rw [e] at hpassed hmeets
    exact ⟨hpassed, hmeets⟩
  | error x d =>
    rw [e] at hpassed hmeets
    exact ⟨hpassed, hmeets⟩

/-- Every answer leaves less to come, until nothing is left. -/
theorem size_nextToken (lexer : Lexer) :
    lexer.nextToken.2.cursor.size < lexer.cursor.size ∨ lexer.nextToken.2.cursor.size = 0 := by
  obtain ⟨⟨w, hpassed⟩, hfaults⟩ := passed_nextToken lexer
  cases h : lexer.nextToken with
  | mk outcome lexer' =>
    rw [h] at hpassed hfaults
    cases outcome with
    | error e =>
      refine Or.inl ?_
      have hchars := congrArg List.length hpassed.chars
      have hlength := congrArg List.length hfaults
      simp only [Outcome.faults, List.length_append, List.length_singleton] at hchars hlength
      have hbefore := lexer.cursor.source.length_chars_add_length_faults
      have hafter := lexer'.cursor.source.length_chars_add_length_faults
      show lexer'.cursor.source.size < lexer.cursor.source.size
      omega
    | ok t =>
      cases ht : t.isEndOfInput with
      | false => exact Or.inl (nextToken_size_lt h ht)
      | true => exact Or.inr (exhausted_of_token (token_of_nextToken h) ht)

end Steps

/-! ## Any number of answers -/

section Runs

variable (lexer : Lexer)

theorem nextToken_after (n : Nat) :
    (after n lexer).nextToken = (answer n lexer, after (n + 1) lexer) := rfl

/-- The cursor accounts for what was taken in any number of answers. -/
theorem passed_between {m n : Nat} (h : m ≤ n) :
    ∃ w, Passed w (after m lexer).cursor (after n lexer).cursor := by
  induction h with
  | refl => exact ⟨[], .refl _⟩
  | @step n _ ih =>
    obtain ⟨v, hv⟩ := ih
    obtain ⟨w, hw⟩ := (passed_nextToken (after n lexer)).1
    exact ⟨v ++ w, hv.trans hw⟩

/-- Each fault is reported once, in the order in which the faults stand. -/
theorem faults_after (n : Nat) :
    lexer.cursor.source.faults = reported n lexer ++ (after n lexer).cursor.source.faults := by
  induction n with
  | zero => rfl
  | succ n ih =>
    rw [ih, (passed_nextToken (after n lexer)).2, reported, List.append_assoc]
    rfl

theorem size_after (n : Nat) :
    (after n lexer).cursor.size + n ≤ lexer.cursor.size ∨ (after n lexer).cursor.size = 0 := by
  induction n with
  | zero => exact Or.inl (Nat.le_refl _)
  | succ n ih =>
    have hnext : (after (n + 1) lexer).cursor.size < (after n lexer).cursor.size ∨
        (after (n + 1) lexer).cursor.size = 0 := size_nextToken (after n lexer)
    omega

end Runs

section Answers

variable {lexer : Lexer} {n : Nat} {t : Token}

theorem spanned_answer (h : answer n lexer = .ok t) :
    Spanned t.items (after n lexer).cursor (after (n + 1) lexer).cursor :=
  spanned_nextToken (by rw [nextToken_after, h])

/-- Where nothing is left, the answer is the end of input. -/
theorem answer_of_exhausted (h : Exhausted (after n lexer).cursor) :
    ∃ t, answer n lexer = .ok t ∧ t.isEndOfInput = true ∧ t.lexeme = "" ∧ t.leadingTrivia = [] := by
  obtain ⟨t, d, hrun, hend, hlexeme, htrivia, -⟩ := h.token (after n lexer).started
  refine ⟨t, ?_, hend, hlexeme, htrivia⟩
  unfold answer nextToken
  rw [hrun]

/-- Between two tokens that are handed out one directly behind the other nothing is dropped. -/
theorem begins_eq_stop {u : Token} (ht : answer n lexer = .ok t)
    (hu : answer (n + 1) lexer = .ok u) : u.begins = t.span.stop :=
  (spanned_answer hu).tiles.begins_eq.1.trans (spanned_answer ht).tiles.begins_eq.2.symm

theorem stop_le_begins {m : Nat} {u : Token} (hmn : m < n) (ht : answer m lexer = .ok t)
    (hu : answer n lexer = .ok u) : t.span.stop ≤ u.begins := by
  rw [(spanned_answer ht).tiles.begins_eq.2, (spanned_answer hu).tiles.begins_eq.1]
  obtain ⟨w, hw⟩ := passed_between lexer hmn
  rw [hw.offset]
  exact Nat.le_add_right _ _

end Answers

/-! ## Readers -/

/-- What a lexer answers that is asked for tokens again and again on a feed, whatever it answered
before. -/
structure Recovers (feed : Feed) (lexer : Lexer) : Prop where
  /-- Every answer is a token or reports a fault of the feed. -/
  answers : ∀ n, (∃ t, answer n lexer = .ok t) ∨
    ∃ e ∈ Feed.faults feed, answer n lexer = .error e
  /-- The faults are reported in their order, each once. -/
  reports : ∀ n, reported n lexer <+: Feed.faults feed
  /-- Every piece of text stands among the decoded characters where its span says. -/
  texts : ∀ n t, answer n lexer = .ok t → ∀ item ∈ t.items,
    sliceBytes? (Feed.chars feed) item.span.start item.span.stop = some item.chars
  /-- The trivia and the lexeme of a token stand one directly behind the other. -/
  contiguous : ∀ n t, answer n lexer = .ok t → Tiles t.begins t.items t.span.stop
  /-- A token begins where the token handed out before it ends, or behind that place if a fault was
  reported between the two. -/
  resumes : ∀ m n t u, m < n → answer m lexer = .ok t → answer n lexer = .ok u →
    (∀ k, m < k → k < n → ∀ v, answer k lexer ≠ .ok v) →
    t.span.stop ≤ u.begins ∧
      (t.span.stop < u.begins → ∃ k e, m < k ∧ k < n ∧ answer k lexer = .error e)
  /-- Behind the last character and the last fault, the end of input is found. -/
  ends : ∀ n, (after n lexer).position.offset = byteLength (Feed.chars feed) →
    reported n lexer = Feed.faults feed →
    ∃ t, answer n lexer = .ok t ∧ t.isEndOfInput = true ∧ t.lexeme = "" ∧ t.leadingTrivia = []
  /-- And it is found: every answer uses up an item of the feed, as long as there is one. -/
  arrives : ∀ n, feed.length ≤ n →
    (after n lexer).position.offset = byteLength (Feed.chars feed) ∧
      reported n lexer = Feed.faults feed

section Readers

variable (script : Script) (n : Nat)

/-- The decoded characters are those the cursor has passed and those that are left. -/
theorem exists_passed_ofScript :
    ∃ w, Feed.chars script.feed = w ++ (after n (ofScript script)).cursor.source.chars ∧
      (after n (ofScript script)).position.offset = byteLength w := by
  obtain ⟨w, h⟩ := passed_between (ofScript script) (Nat.zero_le n)
  refine ⟨w, h.chars, ?_⟩
  have hzero : (after 0 (ofScript script)).cursor.position.offset = 0 := rfl
  have hoffset := h.offset
  rwa [hzero, Nat.zero_add] at hoffset

theorem faults_ofScript :
    Feed.faults script.feed =
      reported n (ofScript script) ++ (after n (ofScript script)).cursor.source.faults :=
  faults_after (ofScript script) n

variable {script n}

/-- The pieces of a token are cut out of the decoded characters. -/
theorem sliceBytes?_answer {t : Token} (h : answer n (ofScript script) = .ok t) {item : TextItem}
    (hitem : item ∈ t.items) :
    sliceBytes? (Feed.chars script.feed) item.span.start item.span.stop = some item.chars := by
  obtain ⟨w, hchars, hoffset⟩ := exists_passed_ofScript script n
  have hspanned := spanned_answer h
  obtain ⟨before, after', hitems, hstart, hstop⟩ := hspanned.tiles.exists_split hitem
  have hbegin : item.span.start = byteLength (w ++ before) := by
    rw [hstart, byteLength_append]
    exact congrArg (· + byteLength before) hoffset
  have hsplit : Feed.chars script.feed = (w ++ before) ++
      (item.chars ++ (after' ++ (after (n + 1) (ofScript script)).cursor.source.chars)) := by
    rw [hchars, hspanned.passed.chars, hitems]
    simp only [List.append_assoc]
  rw [hstop, hbegin, hsplit, sliceBytes?_append]

/-- The cursor is at the end of all exactly if the last character is passed and the last fault
reported. -/
theorem exhausted_iff :
    Exhausted (after n (ofScript script)).cursor ↔
      (after n (ofScript script)).position.offset = byteLength (Feed.chars script.feed) ∧
        reported n (ofScript script) = Feed.faults script.feed := by
  obtain ⟨w, hchars, hoffset⟩ := exists_passed_ofScript script n
  have hfaults := faults_ofScript script n
  have hsize := (after n (ofScript script)).cursor.source.length_chars_add_length_faults
  constructor
  · intro h
    have hzero : (after n (ofScript script)).cursor.source.size = 0 := h
    have hnochars := List.length_eq_zero_iff.mp (by omega :
      (after n (ofScript script)).cursor.source.chars.length = 0)
    have hnofaults := List.length_eq_zero_iff.mp (by omega :
      (after n (ofScript script)).cursor.source.faults.length = 0)
    rw [hnochars, List.append_nil] at hchars
    rw [hnofaults, List.append_nil] at hfaults
    exact ⟨by rw [hoffset, hchars], hfaults.symm⟩
  · rintro ⟨hend, hreported⟩
    have hnochars : (after n (ofScript script)).cursor.source.chars = [] := by
      by_cases hnil : (after n (ofScript script)).cursor.source.chars = []
      · exact hnil
      · have hpos := byteLength_pos hnil
        rw [hoffset, hchars, byteLength_append] at hend
        omega
    have hnofaults : (after n (ofScript script)).cursor.source.faults = [] := by
      rw [hreported] at hfaults
      exact List.append_cancel_left ((List.append_nil _).trans hfaults).symm
    rw [hnochars, hnofaults] at hsize
    exact hsize.symm

end Readers

end Lexer

open Lexer in
/-- **Lexing goes on after faults.** On every reader, wherever reads fail and whatever bytes are no
UTF-8, a lexer can be asked for tokens again and again: what it hands out is found among the decoded
characters where its spans say, in order and with gaps only at faults, each fault is reported once,
and behind the last item of the feed stands the end of input. -/
theorem lexing_recovers (script : Script) : Recovers script.feed (ofScript script) := by
  have hreports : ∀ n, reported n (ofScript script) <+: Feed.faults script.feed :=
    fun n => ⟨_, (faults_ofScript script n).symm⟩
  refine ⟨?_, hreports, fun n t h item hitem => sliceBytes?_answer h hitem, ?_, ?_, ?_, ?_⟩
  · intro n
    cases h : answer n (ofScript script) with
    | ok t => exact Or.inl ⟨t, rfl⟩
    | error e =>
      refine Or.inr ⟨e, (hreports (n + 1)).subset ?_, rfl⟩
      rw [reported, h]
      exact List.mem_append_right _ (List.mem_singleton_self e)
  · intro n t h
    have htiles := (spanned_answer h).tiles
    obtain ⟨hbegin, hstop⟩ := htiles.begins_eq
    rwa [hbegin, hstop]
  · intro m n t u hmn ht hu hbetween
    refine ⟨stop_le_begins hmn ht hu, fun hgap => ?_⟩
    -- directly behind the one, the other would begin where it ends
    have hne : n ≠ m + 1 := by
      rintro rfl
      exact absurd (begins_eq_stop ht hu) (Nat.ne_of_gt hgap)
    have hlt : m + 1 < n := by omega
    cases h : answer (m + 1) (ofScript script) with
    | ok v => exact absurd h (hbetween (m + 1) (Nat.lt_succ_self m) hlt v)
    | error e => exact ⟨m + 1, e, Nat.lt_succ_self m, hlt, h⟩
  · intro n hend hreported
    exact answer_of_exhausted (exhausted_iff.mpr ⟨hend, hreported⟩)
  · intro n hn
    have hsize : (ofScript script).cursor.size = script.feed.length := Nat.zero_add _
    have hleft := size_after (ofScript script) n
    rw [hsize] at hleft
    exact exhausted_iff.mp (show (after n (ofScript script)).cursor.size = 0 by omega)

end LuaLex
