import LuaLex.Proofs.Lexing

/-!
# The items of a text

What lexing a text answers, seen as a list of items: pieces of the text at their places, one behind
the other from its beginning to its end. So the text can be put together again from its tokens.

* `layout_of_tokenize`: the items of a text, laid out from its beginning on. What holds of every
  item is read off it: its text and its place (`item_place`, `item_stop`), its defect
  (`sound_of_tokenize`), and its order among the others (`pairwise_of_tokenize`).
* `lexesToken_of_split`, `lexeme_of_tokenize`, `trivia_of_tokenize`, `exists_last_of_tokenize`:
  where the tokens, their lexemes and their trivia come from, and which token is the last.
* `tokenize_roundTrip`: every text is split into tokens, and they hold the text.
* `tokenize_injective`: texts with the same tokens are the same.
-/

namespace LuaLex

theorem exists_tokenize (s : String) : ∃ tokens, tokenize s = .ok tokens := by
  obtain ⟨ts, -, htokens⟩ := Lexer.tokenize_eq s
  exact ⟨_, htokens⟩

section Items

variable {s : String} {tokens : List Token} {item : TextItem}

/-- **The items of a text** are pieces of it that stand one behind the other. -/
theorem layout_of_tokenize (h : tokenize s = .ok tokens) :
    ∃ items, itemsOf tokens = layOutItems .origin [] items ∧
      items.flatMap TextItem.chars = s.toList ∧ ∀ item ∈ items, item.Sound := by
  obtain ⟨ts, hlexes, htokens⟩ := Lexer.tokenize_eq s
  obtain rfl := Except.ok.inj (h.symm.trans htokens)
  refine ⟨itemsOf ts, itemsOf_layOut .origin [] ts, ?_, hlexes.sound_items⟩
  rw [flatMap_chars_itemsOf, hlexes.chars_eq]

/-- Every item begins behind what stands in front of it, and ends behind itself. -/
theorem item_place (h : tokenize s = .ok tokens) (hitem : item ∈ itemsOf tokens) :
    ∃ before after, s.toList = before ++ (item.chars ++ after) ∧
      item.span = (Position.origin.behind before (item.chars ++ after)).spanTo
        (Position.origin.behind (before ++ item.chars) after) := by
  obtain ⟨items, hitems, hchars, -⟩ := layout_of_tokenize h
  obtain ⟨before, after, hsplit, hspan⟩ := mem_layOut_items (hitems ▸ hitem)
  simp only [List.append_nil] at hspan
  exact ⟨before, after, hchars ▸ hsplit, hspan⟩

theorem item_begins (h : tokenize s = .ok tokens) (hitem : item ∈ itemsOf tokens) :
    ∃ before after, s.toList = before ++ (item.chars ++ after) ∧
      item.span.start = byteLength before := by
  obtain ⟨before, after, hs, hspan⟩ := item_place h hitem
  refine ⟨before, after, hs, ?_⟩
  rw [hspan]
  exact Position.origin_behind_offset _ _

/-- An item covers as many bytes as its text has. -/
theorem item_stop (h : tokenize s = .ok tokens) (hitem : item ∈ itemsOf tokens) :
    item.span.stop = item.span.start + byteLength item.chars := by
  obtain ⟨before, after, -, hspan⟩ := item_place h hitem
  rw [hspan]
  show (Position.behind _ _ _).offset = (Position.behind _ _ _).offset + _
  rw [Position.behind_offset, Position.behind_offset, byteLength_append, Nat.add_assoc]

theorem sound_of_tokenize (h : tokenize s = .ok tokens) (hitem : item ∈ itemsOf tokens) :
    item.Sound := by
  obtain ⟨items, hitems, -, hsound⟩ := layout_of_tokenize h
  rw [hitems] at hitem
  obtain ⟨before, i, after, rfl, rfl⟩ := mem_layOut hitem
  exact (hsound i (by simp)).placed _ _

/-- No item begins before one in front of it has ended. -/
theorem pairwise_of_tokenize (h : tokenize s = .ok tokens) :
    (itemsOf tokens).Pairwise fun i j => i.span.stop ≤ j.span.start := by
  obtain ⟨items, hitems, -⟩ := layout_of_tokenize h
  rw [hitems]
  exact pairwise_layOut_items .origin [] items

end Items

section Tokens

variable {s : String} {tokens : List Token} {t : Token}

open Lexer in
/-- Every token of a text is lexed behind those in front of it, and only for the first one a byte
order mark is looked for. -/
theorem lexesToken_of_split {front back : List Token} (h : tokenize s = .ok (front ++ t :: back)) :
    ∃ cs t' rest, s.toList = front.flatMap Token.chars ++ cs ∧
      LexesToken (!front.isEmpty) cs t' rest ∧
        t = t'.placed (Position.origin.behind (front.flatMap Token.chars) cs) rest := by
  obtain ⟨ts, hlexes, htokens⟩ := tokenize_eq s
  have hsplit := hlexes.exists_lexesToken (Except.ok.inj (htokens.symm.trans h))
  rwa [Bool.false_or] at hsplit

open Lexer in
/-- Every token of a text is lexed where it stands. -/
theorem lexesToken_of_tokenize (h : tokenize s = .ok tokens) (ht : t ∈ tokens) :
    ∃ started before cs t' rest, s.toList = before ++ cs ∧ LexesToken started cs t' rest ∧
      t = t'.placed (Position.origin.behind before cs) rest := by
  obtain ⟨front, back, rfl⟩ := List.append_of_mem ht
  exact ⟨_, _, lexesToken_of_split h⟩

open Lexer in
/-- The lexeme of a token is what the scanner of lexemes takes at the place of the token, where no
trivia is left. -/
theorem lexeme_of_tokenize (h : tokenize s = .ok tokens) (ht : t ∈ tokens) :
    ∃ before cs rest, s.toList = before ++ cs ∧ t.span.start = byteLength before ∧
      startsTrivia cs = false ∧
      Scan.Takes lexeme [] cs (t.kind, t.defect) t.lexeme.toList rest := by
  obtain ⟨started, before, cs, t', rest, hs, hlexes, rfl⟩ := lexesToken_of_tokenize h ht
  cases hlexes with
  | @mk mid₁ mid₂ w _ mark found kind defect hmark hfound hlexeme =>
    refine ⟨before ++ triviaChars (mark ++ found), mid₂, rest, ?_, ?_, hfound.startsTrivia_rest, ?_⟩
    · rw [hs, hmark.split, hfound.split]
      simp [triviaChars]
    · rw [Token.start_placed, Position.origin_behind_offset, byteLength_append]
    · rw [← String.toList_ofList (l := w)] at hlexeme
      exact hlexeme

open Lexer in
/-- A piece of trivia is the byte order mark, which is the first item of all, or what the scanner of
trivia takes at its place. -/
theorem trivia_of_tokenize (h : tokenize s = .ok tokens) (ht : t ∈ tokens) {trivia : Trivia}
    (htrivia : trivia ∈ t.leadingTrivia) :
    ∃ before cs, s.toList = before ++ cs ∧ trivia.span.start = byteLength before ∧
      (trivia.IsMark ∧ before = [] ∧ (itemsOf tokens).head? = some trivia.item ∨
        ∃ rest, Scan.Takes triviaText [] cs (some (trivia.kind, trivia.defect))
          trivia.text.toList rest) := by
  obtain ⟨tfront, tback, rfl⟩ := List.append_of_mem ht
  obtain ⟨cs, t', rest, hs, hlexes, rfl⟩ := lexesToken_of_split h
  obtain ⟨front, u, back, hsplit, rfl⟩ := mem_layOut htrivia
  obtain ⟨cs', rfl, hcases⟩ := hlexes.trivia_cases hsplit
  refine ⟨tfront.flatMap Token.chars ++ triviaChars front, cs', ?_, ?_, ?_⟩
  · rw [hs, List.append_assoc]
  · show (Position.behind (Position.behind _ _ _) _ _).offset = _
    rw [Position.behind_offset, Position.origin_behind_offset, byteLength_append]
    rfl
  · rcases hcases with ⟨hstarted, rfl, hmark⟩ | htakes
    · obtain rfl : tfront = [] := by simpa using hstarted
      refine Or.inl ⟨⟨hmark.kind, hmark.text, hmark.defect⟩, rfl, ?_⟩
      simp [Token.items, Token.placed, layOutTrivia, layOut, hsplit]
    · exact Or.inr htakes

/-- The end of input is the last token of a text, and no other one is. -/
theorem exists_last_of_tokenize (h : tokenize s = .ok tokens) :
    ∃ front last, tokens = front ++ [last] ∧ (∀ t ∈ front, t.isEndOfInput = false) ∧
      last.isEndOfInput = true := by
  obtain ⟨ts, hlexes, htokens⟩ := Lexer.tokenize_eq s
  obtain rfl := Except.ok.inj (h.symm.trans htokens)
  obtain ⟨front, last, rfl, hfront, hlast⟩ := hlexes.exists_last
  refine ⟨_, _, layOut_append .origin [] front [last], ?_, hlast⟩
  intro t ht
  obtain ⟨_, t', _, rfl, rfl⟩ := mem_layOut ht
  exact hfront t' (by simp)

end Tokens

/-! ## The round trip -/

/-- The tokens of a text hold it. -/
theorem reconstruct_of_tokenize {s : String} {tokens : List Token} (h : tokenize s = .ok tokens) :
    reconstruct tokens = s := by
  obtain ⟨items, hitems, hchars, -⟩ := layout_of_tokenize h
  apply String.toList_injective
  rw [toList_reconstruct, ← flatMap_chars_itemsOf, hitems, layOutItems,
    flatMap_chars_layOut TextItem.chars_placed, hchars]

/-- **The lossless round trip.** Every text is split into tokens, whatever stands in it, and the
tokens with their trivia hold the text character by character. -/
theorem tokenize_roundTrip (s : String) :
    ∃ tokens, tokenize s = .ok tokens ∧ reconstruct tokens = s := by
  obtain ⟨tokens, htokens⟩ := exists_tokenize s
  exact ⟨tokens, htokens, reconstruct_of_tokenize htokens⟩

/-- Texts with the same tokens are the same. -/
theorem tokenize_injective {s t : String} (h : tokenize s = tokenize t) : s = t := by
  obtain ⟨tokens, hs⟩ := exists_tokenize s
  rw [← reconstruct_of_tokenize hs]
  exact reconstruct_of_tokenize (h ▸ hs)

end LuaLex
