import Mathlib
import LuaLex.Command
import LuaLex.Proofs.Lookahead
import LuaLex.Proofs.ReaderLexing

/-!
# Tokens handed out before a failure

A reader that fails has handed out tokens before. They stand: whatever text might have come instead
of the failure, lexing it begins with the same tokens. And none of them is held back longer than
needed, for every token that ends in front of the failure has been handed out.

* `exists_stop`: a reader and a text in step hand out the same tokens up to the one at which the
  reader fails.
* `exists_stands`: the tokens in front of a failure stand.
* `Command.listed_of_fault`, `Command.tokens_of_text`: what is listed of a reader that fails, and of
  a file that is a text.
* `delivered_tokens_stand`: both together, for tokens and for listings.
-/

namespace LuaLex

/-- A reader that delivers the characters of a text and fails with `e` right behind them. -/
def Script.FailsAfter (script : Script) (s : String) (e : Fault) : Prop :=
  ∃ more, script.feed = s.toList.map .ok ++ .error e :: more

theorem Script.failsAfter_of_stream {script : Script} {s : String} {reason : String}
    {rest : ByteStream} (h : script.stream = (utf8Bytes s).map .ok ++ .error reason :: rest) :
    script.FailsAfter s (.unreadable reason) := by
  refine ⟨Utf8.decode (0 + byteLength s.toList) rest, ?_⟩
  rw [Script.feed, h, utf8Bytes_eq, Utf8.decode_encoded, Utf8.decode_error]

/-- A byte that begins no sequence is refused at the number of bytes in front of it. -/
theorem Script.failsAfter_of_byte {script : Script} {s : String} {byte : UInt8} {rest : ByteStream}
    (hwidth : Utf8.width byte = 0)
    (h : script.stream = (utf8Bytes s).map .ok ++ .ok byte :: rest) :
    script.FailsAfter s (.invalidUtf8 s.utf8ByteSize) := by
  have hafter : Utf8.decodeAfter s.utf8ByteSize byte rest =
      (.error (.invalidUtf8 s.utf8ByteSize), rest) := by
    simp only [Utf8.decodeAfter, hwidth]
  refine ⟨Utf8.decode s.utf8ByteSize rest, ?_⟩
  rw [Script.feed, h, utf8Bytes_eq, Utf8.decode_encoded, Nat.zero_add, byteLength_toList,
    Utf8.decode_ok, hafter]

/-! ## Streams -/

namespace Lexer

open Cursor (InStep Passed)

section Streams

variable {c d : Cursor} {started : Bool} {e : Fault} {front ts : List Token}

/-- How a stream of tokens that ends in a fault begins. -/
theorem drain_cases (h : (⟨c, started, false⟩ : Lexer).drain.1 = front.map .ok ++ [.error e]) :
    (front = [] ∧ ∃ c', token started c = .error e c') ∨
      ∃ t rest c', front = t :: rest ∧ token started c = .ok t c' ∧ t.isEndOfInput = false ∧
        (⟨c', true, false⟩ : Lexer).drain.1 = rest.map .ok ++ [.error e] := by
  rw [drain_unfinished] at h
  cases hc : token started c with
  | error x c' =>
    simp only [hc] at h
    cases front with
    | nil =>
      cases h
      exact Or.inl ⟨rfl, c', rfl⟩
    | cons t rest => cases h
  | ok t c' =>
    simp only [hc] at h
    cases front with
    | nil => cases h
    | cons u rest =>
      obtain ⟨htu, hrest⟩ := List.cons.inj h
      cases htu
      cases ht : t.isEndOfInput with
      | true =>
        rw [if_pos ht] at hrest
        exact absurd hrest (by simp)
      | false =>
        rw [if_neg (by simp [ht])] at hrest
        exact Or.inr ⟨t, rest, c', rfl, rfl, ht, hrest⟩

/-- How a whole stream of tokens begins. -/
theorem tokens_cases (h : (⟨d, started, false⟩ : Lexer).tokens = .ok ts) :
    ∃ t d', token started d = .ok t d' ∧
      (t.isEndOfInput = true ∧ ts = [t] ∨ t.isEndOfInput = false ∧
        ∃ rest, ts = t :: rest ∧ (⟨d', true, false⟩ : Lexer).tokens = .ok rest) := by
  rw [tokens_eq] at h
  cases hd : token started d with
  | error x d' =>
    simp only [hd] at h
    cases h
  | ok t d' =>
    simp only [hd] at h
    refine ⟨t, d', rfl, ?_⟩
    cases ht : t.isEndOfInput with
    | true =>
      rw [if_pos ht] at h
      exact Or.inl ⟨rfl, (Except.ok.inj h).symm⟩
    | false =>
      rw [if_neg (by simp [ht])] at h
      cases hrest : (⟨d', true, false⟩ : Lexer).tokens with
      | error x =>
        rw [hrest] at h
        cases h
      | ok rest =>
        rw [hrest] at h
        exact Or.inr ⟨rfl, rest, (Except.ok.inj h).symm, rfl⟩

theorem passed_token {t : Token} (h : token started c = .ok t d) : ∃ w, Passed w c d := by
  have hpassed := (accounts_token started).passed c
  rwa [h] at hpassed

/-- No token ends in front of where the lexer stands. -/
theorem offset_le_stop (h : (⟨d, started, false⟩ : Lexer).tokens = .ok ts) :
    ∀ t ∈ ts, d.position.offset ≤ t.span.stop := by
  induction ts generalizing d started with
  | nil => simp
  | cons u ts ih =>
    obtain ⟨t, d', htoken, hts⟩ := tokens_cases h
    have hstop : t.span.stop = d'.position.offset := (spanned_token htoken).tiles.begins_eq.2
    obtain ⟨w, hw⟩ := passed_token htoken
    have hle : d.position.offset ≤ d'.position.offset := by
      rw [hw.offset]
      exact Nat.le_add_right _ _
    rcases hts with ⟨-, hts⟩ | ⟨-, rest, hts, hrest⟩
    · obtain ⟨rfl, rfl⟩ := List.cons.inj hts
      simpa [hstop] using hle
    · obtain ⟨rfl, rfl⟩ := List.cons.inj hts
      intro v hv
      rcases List.mem_cons.mp hv with rfl | hv
      · rwa [hstop]
      · exact Nat.le_trans hle (ih hrest v hv)

end Streams

/-! ## The place of the failure -/

section Stop

variable {tail : Feed} {beyond : List Char} {c d : Cursor} {started : Bool} {e : Fault}
  {front ts : List Token}

/-- A reader that hands out `front` and then fails, beside a text in step with it: up to the token
at which the reader fails both hand out the same. -/
theorem exists_stop (hends : Ends tail beyond) (h : InStep tail beyond c d)
    (hdrain : (⟨c, started, false⟩ : Lexer).drain.1 = front.map .ok ++ [.error e])
    (htokens : (⟨d, started, false⟩ : Lexer).tokens = .ok ts) :
    ∃ started' c' c'' d' rest w, ts = front ++ rest ∧ InStep tail beyond c' d' ∧
      token started' c' = .error e c'' ∧ (⟨d', started', false⟩ : Lexer).tokens = .ok rest ∧
      Passed w d d' := by
  induction front generalizing c d started ts with
  | nil =>
    rcases drain_cases hdrain with ⟨-, c', hc⟩ | ⟨t, rest, c', hcons, -⟩
    · exact ⟨started, c, c', d, ts, [], rfl, h, hc, htokens, .refl d⟩
    · cases hcons
  | cons t front ih =>
    rcases drain_cases hdrain with ⟨hnil, -⟩ | ⟨t', rest, c', hcons, hc, hend, hdrain⟩
    · cases hnil
    obtain ⟨rfl, rfl⟩ := List.cons.inj hcons
    obtain ⟨u, d', hd, hts⟩ := tokens_cases htokens
    obtain ⟨rfl, h'⟩ : t = u ∧ InStep tail beyond c' d' := by
      rcases (lockstep_token hends started).beside h hd with ⟨c₁, hc₁, h₁⟩ | ⟨x, c₁, hc₁, -⟩
      · obtain ⟨rfl, rfl⟩ : t = u ∧ c' = c₁ := by simpa using hc.symm.trans hc₁
        exact ⟨rfl, h₁⟩
      · cases hc.symm.trans hc₁
    rcases hts with ⟨hend', -⟩ | ⟨-, ts, rfl, hrest⟩
    · rw [hend] at hend'
      cases hend'
    obtain ⟨started', c₂, c₃, d₂, rest, w, rfl, h₂, hc₂, hd₂, hw⟩ := ih h' hdrain hrest
    obtain ⟨v, hv⟩ := passed_token hd
    exact ⟨started', c₂, c₃, d₂, rest, v ++ w, rfl, h₂, hc₂, hd₂, hv.trans hw⟩

/-- Where a reader fails whose characters are all of the text, the tokens that the text still has
reach to its end. -/
theorem size_le_stop (hends : Ends tail []) (h : InStep tail [] c d) {c' : Cursor}
    (hc : token started c = .error e c')
    (htokens : (⟨d, started, false⟩ : Lexer).tokens = .ok ts) {w : List Char} {d₀ : Cursor}
    (hd₀ : Passed w d₀ d) :
    ∀ t ∈ ts, d₀.position.offset + byteLength d₀.source.chars ≤ t.span.stop := by
  obtain ⟨t, d', htoken, hts⟩ := tokens_cases htokens
  have hzero : d'.source.size ≤ 0 := (nearsighted_token hends started).near h hc htoken
  have hnone : d'.source.chars = [] := by
    have hsize := d'.source.length_chars_add_length_faults
    exact List.length_eq_zero_iff.mp (by omega)
  -- all characters have been passed, so the cursor stands at the end
  obtain ⟨v, hv⟩ := passed_token htoken
  have hend : d₀.position.offset + byteLength d₀.source.chars = d'.position.offset := by
    have hpassed := hd₀.trans hv
    rw [hpassed.offset, hpassed.chars, hnone, List.append_nil]
  have hstop : t.span.stop = d'.position.offset := (spanned_token htoken).tiles.begins_eq.2
  rw [hend]
  rcases hts with ⟨-, rfl⟩ | ⟨-, rest, rfl, hrest⟩
  · simp [hstop]
  · intro u hu
    rcases List.mem_cons.mp hu with rfl | hu
    · exact Nat.le_of_eq hstop.symm
    · exact offset_le_stop hrest u hu

end Stop

end Lexer

/-! ## Tokens that stand -/

/-- The tokens begin what lexing yields for every text that continues `s`, and the tokens of `s`
that are not among them reach to its end. -/
structure Stands (s : String) (front : List Token) : Prop where
  begins : ∀ u, ∃ tokens, tokenize (s ++ u) = .ok tokens ∧ front <+: tokens
  complete : ∃ rest, tokenize s = .ok (front ++ rest) ∧ ∀ t ∈ rest, s.utf8ByteSize ≤ t.span.stop

open Lexer in
/-- **What is handed out in front of a failure stands.** -/
theorem exists_stands (s : String) (e : Fault) (more : Feed) :
    ∃ front : List Token,
      (ofSource (.ofFeed (s.toList.map .ok ++ .error e :: more))).drain.1 =
        front.map .ok ++ [.error e] ∧ Stands s front := by
  have hends : ∀ beyond, Ends (.error e :: more) beyond := fun _ => Or.inr ⟨e, more, rfl⟩
  obtain ⟨front, hfront⟩ := drain_of_inStep_fault (inStep_ofFeed s.toList (.error e :: more) ['x'])
  have hstep := inStep_ofFeed s.toList (.error e :: more)
  refine ⟨front, hfront, fun u => ?_, ?_⟩
  · obtain ⟨tokens, htokens⟩ := exists_tokenize (s ++ u)
    have hrun : (⟨.onText .origin [] (s.toList ++ u.toList), false, false⟩ : Lexer).tokens =
        .ok tokens := by
      rw [← String.toList_append]
      exact htokens
    obtain ⟨-, -, -, -, rest, -, rfl, -⟩ := exists_stop (hends _) (hstep _) hfront hrun
    exact ⟨_, htokens, List.prefix_append _ _⟩
  · obtain ⟨tokens, htokens⟩ := exists_tokenize s
    have hrun : (⟨.onText .origin [] (s.toList ++ []), false, false⟩ : Lexer).tokens =
        .ok tokens := by
      rw [List.append_nil]
      exact htokens
    obtain ⟨started, c', c'', d', rest, w, rfl, h', hc', hd', hw⟩ :=
      exists_stop (hends _) (hstep []) hfront hrun
    have hstop := size_le_stop (hends []) h' hc' hd' hw
    refine ⟨rest, htokens, fun t ht => ?_⟩
    have hle : 0 + byteLength (s.toList ++ []) ≤ t.span.stop := hstop t ht
    rwa [List.append_nil, Nat.zero_add, byteLength_toList] at hle

/-! ## Listings -/

namespace Command

variable {format : ListingFormat} {showTrivia : Bool} {unprintable : Char → Bool}
  {inputs : Inputs} {path : String}

/-- What listing the tokens of a reader writes, and how it ends. -/
def listed (script : Script) (format : ListingFormat) (showTrivia : Bool)
    (unprintable : Char → Bool := Text.Unprintable.isUnprintable) : Report :=
  listOnto format showTrivia unprintable "" 0 (Lexer.ofScript script).drain.1

theorem tokens_eq_listed {bytes : List UInt8} (h : inputs.open path = .ok bytes) :
    tokens inputs path format showTrivia unprintable =
      listed (.ofBytes bytes) format showTrivia unprintable := by
  unfold tokens
  rw [h]
  rfl

/-- Tokens are listed one behind the other. -/
theorem listOnto_append (front : List Token) (out : String) (count : Nat) (rest : List Outcome) :
    listOnto format showTrivia unprintable out count (front.map .ok ++ rest) =
      listOnto format showTrivia unprintable
        (out ++ String.join (front.map (·.listing format showTrivia unprintable)))
        (count + front.length) rest := by
  induction front generalizing out count with
  | nil => simp
  | cons t front ih =>
    rw [List.map_cons, List.cons_append, listOnto, ih, List.map_cons, String.join_cons,
      String.append_assoc, List.length_cons, Nat.add_assoc, Nat.add_comm 1]

/-- The listing of a reader that fails ends behind the tokens in front of the failure. -/
theorem listed_of_fault {script : Script} {front : List Token} {e : Fault}
    (h : (Lexer.ofScript script).drain.1 = front.map .ok ++ [.error e]) :
    listed script format showTrivia unprintable =
      ⟨String.join (front.map (·.listing format showTrivia unprintable)),
        .error (.notLexed e)⟩ := by
  rw [listed, h, listOnto_append, String.empty_append]
  rfl

/-- The listing of a file that is a text shows all its tokens. -/
theorem tokens_of_text {s : String} {ts : List Token} (h : inputs.open path = .ok (utf8Bytes s))
    (hts : tokenize s = .ok ts) :
    tokens inputs path format showTrivia unprintable =
      ⟨String.join (ts.map (·.listing format showTrivia unprintable)), .ok ts.length⟩ := by
  have hstream : (Script.ofBytes (utf8Bytes s)).stream = (utf8Bytes s).map .ok :=
    List.append_nil _
  have hdrain : (Lexer.ofScript (.ofBytes (utf8Bytes s))).drain.1 = ts.map .ok :=
    Lexer.drain_of_tokens ((tokenizeScript_of_stream hstream).trans hts)
  rw [tokens_eq_listed h, listed, hdrain, ← List.append_nil (ts.map _), listOnto_append,
    String.empty_append, Nat.zero_add]
  rfl

/-- A listing that a failure cut short: it reports the failure, and every file that continues the
text is listed with the same lines and then more. -/
structure CutShort (s : String) (e : Fault) (format : ListingFormat) (showTrivia : Bool)
    (report : Report) : Prop where
  fails : report.result = .error (.notLexed e)
  begins : ∀ inputs path u, inputs.open path = .ok (utf8Bytes (s ++ u)) →
    ∃ more count, tokens inputs path format showTrivia = ⟨report.out ++ more, .ok count⟩

theorem cutShort_listed {script : Script} {front : List Token} {s : String} {e : Fault}
    (h : (Lexer.ofScript script).drain.1 = front.map .ok ++ [.error e]) (hstands : Stands s front) :
    CutShort s e format showTrivia (listed script format showTrivia) := by
  rw [listed_of_fault h]
  refine ⟨rfl, fun inputs path u hopen => ?_⟩
  obtain ⟨ts, hts, rest, rfl⟩ := hstands.begins u
  refine ⟨String.join (rest.map (·.listing format showTrivia)), (front ++ rest).length, ?_⟩
  rw [tokens_of_text hopen hts, List.map_append, String.join_append]

end Command

/-- **Tokens delivered before a failure are final.** A reader that fails right behind the characters
of `s` hands out the first tokens of every text that begins with `s`, and all tokens of `s` that end
before its end; a listing that fails there is the beginning of the listing of every such text. So
text that is appended changes no token that ends in front of the last character. -/
theorem delivered_tokens_stand (s : String) :
    (∀ script e, Script.FailsAfter script s e →
      (∃ front : List Token,
        (Lexer.ofScript script).drain.1 = front.map .ok ++ [.error e] ∧ Stands s front) ∧
      ∀ format showTrivia,
        Command.CutShort s e format showTrivia (Command.listed script format showTrivia)) ∧
    (∀ inputs path bytes e, inputs.open path = .ok bytes →
      Script.FailsAfter (.ofBytes bytes) s e → ∀ format showTrivia,
        Command.CutShort s e format showTrivia (Command.tokens inputs path format showTrivia)) ∧
    ∀ u, ∃ front rest more, tokenize s = .ok (front ++ rest) ∧
      tokenize (s ++ u) = .ok (front ++ more) ∧ ∀ t ∈ rest, s.utf8ByteSize ≤ t.span.stop := by
  have hreader : ∀ script e, Script.FailsAfter script s e → ∃ front : List Token,
      (Lexer.ofScript script).drain.1 = front.map .ok ++ [.error e] ∧ Stands s front := by
    rintro script e ⟨more, hfeed⟩
    rw [Lexer.ofScript, Source.ofScript, hfeed]
    exact exists_stands s e more
  refine ⟨fun script e h => ?_, fun inputs path bytes e hopen h format showTrivia => ?_,
    fun u => ?_⟩
  · obtain ⟨front, hfront, hstands⟩ := hreader script e h
    exact ⟨⟨front, hfront, hstands⟩, fun _ _ => Command.cutShort_listed hfront hstands⟩
  · obtain ⟨front, hfront, hstands⟩ := hreader _ e h
    rw [Command.tokens_eq_listed hopen]
    exact Command.cutShort_listed hfront hstands
  · obtain ⟨front, -, hstands⟩ := exists_stands s (.unreadable "") []
    obtain ⟨rest, hs, hrest⟩ := hstands.complete
    obtain ⟨tokens, hu, more, rfl⟩ := hstands.begins u
    exact ⟨front, rest, more, hs, hu, hrest⟩

/-- Behind `x=` a failure holds the sign back, which may be the first half of another one, and not
the name in front of it. -/
theorem delivered_tokens_before_sign :
    let script : Script := [.chunk (utf8Bytes "x="), .interrupted, .failure "gone"]
    let bytes := utf8Bytes "x=" ++ [0xff]
    let broken : Inputs := ⟨fun _ => .file bytes, bytes⟩
    script.FailsAfter "x=" (.unreadable "gone") ∧
      broken.open "main.lua" = .ok bytes ∧
      Script.FailsAfter (.ofBytes bytes) "x=" (.invalidUtf8 2) ∧
      (Lexer.ofScript script).drain.1 =
        [.ok ⟨.identifier, "x", [], ⟨0, 1, 1, 1⟩, none⟩, .error (.unreadable "gone")] ∧
      Command.CutShort "x=" (.invalidUtf8 2) .text false
        (Command.tokens broken "main.lua" .text false) := by
  intro script bytes broken
  have hscript : script.FailsAfter "x=" (.unreadable "gone") := Script.failsAfter_of_stream rfl
  have hopen : broken.open "main.lua" = .ok bytes := by
    unfold Inputs.open
    split <;> rfl
  have hstream : (Script.ofBytes bytes).stream = (utf8Bytes "x=").map .ok ++ [.ok 0xff] := rfl
  have hbytes : Script.FailsAfter (.ofBytes bytes) "x=" (.invalidUtf8 2) :=
    Script.failsAfter_of_byte (by decide) hstream
  obtain ⟨hreaders, hfiles, -⟩ := delivered_tokens_stand "x="
  refine ⟨hscript, hopen, hbytes, ?_, hfiles broken "main.lua" bytes _ hopen hbytes .text false⟩
  obtain ⟨front, hfront, hstands⟩ := (hreaders script _ hscript).1
  have hone : tokenize "x=" = .ok
      [⟨.identifier, "x", [], ⟨0, 1, 1, 1⟩, none⟩, ⟨.operator, "=", [], ⟨1, 2, 1, 2⟩, none⟩,
        ⟨.endOfInput, "", [], ⟨2, 2, 1, 3⟩, none⟩] := by
    cbv
  have htwo : tokenize ("x=" ++ "=") = .ok
      [⟨.identifier, "x", [], ⟨0, 1, 1, 1⟩, none⟩, ⟨.operator, "==", [], ⟨1, 3, 1, 2⟩, none⟩,
        ⟨.endOfInput, "", [], ⟨3, 3, 1, 4⟩, none⟩] := by
    cbv
  obtain ⟨rest, hrest, hstop⟩ := hstands.complete
  obtain ⟨tokens, htokens, more, rfl⟩ := hstands.begins "="
  have hsplit := Except.ok.inj (hone.symm.trans hrest)
  have hsplit' := Except.ok.inj (htwo.symm.trans htokens)
  rw [hfront]
  cases front with
  | nil =>
    -- the name ends in front of the failure
    rw [List.nil_append] at hsplit
    exact absurd (hstop _ (hsplit ▸ List.mem_cons_self)) (by decide)
  | cons t front =>
    obtain ⟨rfl, htail⟩ := List.cons.inj hsplit
    obtain ⟨-, htail'⟩ := List.cons.inj hsplit'
    cases front with
    | nil => rfl
    | cons u front =>
      -- the sign is another one in the longer text
      have hsign := (List.cons.inj htail).1.trans (List.cons.inj htail').1.symm
      exact absurd hsign (by decide)

end LuaLex
