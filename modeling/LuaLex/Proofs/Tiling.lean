import LuaLex.Proofs.RoundTrip

/-!
# Items tile their text

The spans of a lexed text leave no byte out and share none: the first begins at byte zero, each
begins where the one before it ends, and each has exactly the bytes of its text.

* `Tiles lo items hi`: the items cover the bytes from `lo` up to `hi` in this manner.
* `tiles_layOut`: items that are laid out tile the bytes of their texts.
* `Tiles.exists_split`, `Tiles.begins_eq`: the place of an item in a tiling, and the two ends of
  the tiling of a token.
* `LexesToken.filled`: only the end of input has no text.
* `tokenize_tiles`: the items of a text tile it, and the end of input stands behind its last byte.
-/

namespace LuaLex

/-! ## Tilings -/

/-- The items cover the bytes from the first number up to the second. The first item begins at the
one, the last item ends at the other, each other one begins where the one before it ends, and each
has as many bytes as its text. -/
inductive Tiles : Nat → List TextItem → Nat → Prop
  | nil (lo : Nat) : Tiles lo [] lo
  | cons {lo hi : Nat} {item : TextItem} {items : List TextItem} :
      item.span.start = lo → item.span.stop = lo + item.text.utf8ByteSize →
        Tiles item.span.stop items hi → Tiles lo (item :: items) hi

theorem TextItem.byteLength_chars (item : TextItem) :
    byteLength item.chars = item.text.utf8ByteSize := byteLength_toList item.text

theorem tiles_append {lo hi : Nat} {xs ys : List TextItem} :
    Tiles lo (xs ++ ys) hi ↔ ∃ mid, Tiles lo xs mid ∧ Tiles mid ys hi := by
  induction xs generalizing lo with
  | nil =>
    constructor
    · intro h
      exact ⟨lo, .nil lo, h⟩
    · rintro ⟨mid, hxs, hys⟩
      cases hxs
      exact hys
  | cons x xs ih =>
    constructor
    · intro h
      rw [List.cons_append] at h
      cases h with
      | cons hstart hstop h =>
        obtain ⟨mid, hxs, hys⟩ := ih.mp h
        exact ⟨mid, .cons hstart hstop hxs, hys⟩
    · rintro ⟨mid, hxs, hys⟩
      cases hxs with
      | cons hstart hstop hxs => exact .cons hstart hstop (ih.mpr ⟨mid, hxs, hys⟩)

theorem tiles_singleton {lo hi : Nat} {item : TextItem} (h : Tiles lo [item] hi) :
    item.span.start = lo ∧ item.span.stop = lo + item.text.utf8ByteSize ∧ item.span.stop = hi := by
  cases h with
  | cons hstart hstop h =>
    cases h with
    | nil => exact ⟨hstart, hstop, rfl⟩

/-- What is laid out from a place on tiles the bytes of its text. -/
theorem tiles_layOut (p : Position) (rest : List Char) (items : List TextItem) :
    Tiles p.offset (layOutItems p rest items)
      (p.offset + byteLength (items.flatMap TextItem.chars)) := by
  induction items generalizing p with
  | nil => exact .nil _
  | cons item items ih =>
    have h := ih (p.behind item.chars (items.flatMap TextItem.chars ++ rest))
    rw [Position.behind_offset] at h
    rw [List.flatMap_cons, byteLength_append, ← Nat.add_assoc]
    refine .cons rfl ?_ ?_
    · show (Position.behind _ _ _).offset = _
      rw [Position.behind_offset, item.byteLength_chars]
      rfl
    · show Tiles (Position.behind _ _ _).offset _ _
      rw [Position.behind_offset]
      exact h

/-! ## Parts of a tiling -/

/-- Every tile stands behind those before it. -/
theorem Tiles.exists_split {lo hi : Nat} {items : List TextItem} (h : Tiles lo items hi)
    {item : TextItem} (hitem : item ∈ items) :
    ∃ before after, items.flatMap TextItem.chars = before ++ (item.chars ++ after) ∧
      item.span.start = lo + byteLength before ∧
      item.span.stop = item.span.start + byteLength item.chars := by
  induction h with
  | nil => cases hitem
  | @cons lo hi i items hstart hstop _ ih =>
    rw [← i.byteLength_chars] at hstop
    rcases List.mem_cons.mp hitem with rfl | hitem
    · refine ⟨[], items.flatMap TextItem.chars, rfl, hstart, ?_⟩
      rw [hstop, hstart]
    · obtain ⟨before, after, hchars, hbefore, hlength⟩ := ih hitem
      refine ⟨i.chars ++ before, after, ?_, ?_, hlength⟩
      · rw [List.flatMap_cons, hchars, List.append_assoc]
      · rw [hbefore, hstop, byteLength_append, Nat.add_assoc]

/-- A tile begins where the one before it ends. -/
theorem Tiles.start_eq_stop {lo hi : Nat} {front back : List TextItem} {a b : TextItem}
    (h : Tiles lo (front ++ a :: b :: back) hi) : b.span.start = a.span.stop := by
  obtain ⟨_, -, h⟩ := tiles_append.mp h
  cases h with
  | cons _ _ h =>
    cases h with
    | cons hstart _ _ => exact hstart

/-- The byte at which a token begins, with the trivia in front of it. -/
def Token.begins (t : Token) : Nat :=
  match t.leadingTrivia with
  | [] => t.span.start
  | trivia :: _ => trivia.span.start

/-- The items of a token lead from where it begins to where it ends. -/
theorem Tiles.begins_eq {lo hi : Nat} {t : Token} (h : Tiles lo t.items hi) :
    t.begins = lo ∧ t.span.stop = hi := by
  obtain ⟨mid, hleading, htoken⟩ := tiles_append.mp h
  obtain ⟨hstart, -, hstop⟩ := tiles_singleton htoken
  refine ⟨?_, hstop⟩
  unfold Token.begins
  cases ht : t.leadingTrivia with
  | nil =>
    rw [ht] at hleading
    cases hleading
    exact hstart
  | cons trivia ts =>
    rw [ht] at hleading
    cases hleading with
    | cons hfirst _ _ => exact hfirst

/-- A token begins at the place that it is put at. -/
theorem Token.begins_placed (p : Position) (rest : List Char) (t : Token) :
    (t.placed p rest).begins = p.offset := by
  have htiles := tiles_layOut p rest t.items
  rw [← Token.items_placed] at htiles
  exact htiles.begins_eq.1

/-! ## Which items have text -/

/-- An item has text, unless it is the end of input, which has none. -/
def TextItem.Filled (item : TextItem) : Prop :=
  item.text = "" ↔ item.kind = .token .endOfInput

namespace Lexer

open Scan

theorem filled_trivia {kind : TriviaKind} {w : List Char} {defect : Option Defect} (h : w ≠ []) :
    (⟨kind, String.ofList w, .dummy, defect⟩ : Trivia).item.Filled := by
  constructor
  · intro htext
    exact absurd (String.ofList_eq_empty_iff.mp htext) h
  · intro hkind
    cases hkind

theorem LexesMark.filled {started : Bool} {cs rest : List Char} {mark : List Trivia}
    (h : LexesMark started cs mark rest) : ∀ t ∈ mark, t.item.Filled := by
  cases h with
  | passed => simp
  | absent _ => simp
  | present =>
    intro t ht
    rw [List.mem_singleton.mp ht]
    exact filled_trivia (w := ['\ufeff']) (by simp)

theorem LexesTrivia.filled {cs rest : List Char} {ts : List Trivia} (h : LexesTrivia cs ts rest) :
    ∀ t ∈ ts, t.item.Filled := by
  induction h with
  | stop _ => simp
  | next h _ ih =>
    have hw := h.ne_nil (takesWhen_triviaText _) rfl
    exact List.forall_mem_cons.mpr ⟨filled_trivia hw, ih⟩

/-- **Every item has text**, apart from the end of input, which has none. -/
theorem LexesToken.filled {started : Bool} {cs rest : List Char} {t : Token}
    (h : LexesToken started cs t rest) : ∀ item ∈ t.items, item.Filled := by
  cases h with
  | @mk mid₁ mid₂ w _ mark found kind defect hmark hfound hlexeme =>
    intro item hitem
    rcases List.mem_append.mp hitem with hitem | hitem
    · obtain ⟨t, ht, rfl⟩ := List.mem_map.mp hitem
      rcases List.mem_append.mp ht with ht | ht
      · exact hmark.filled t ht
      · exact hfound.filled t ht
    · rw [List.mem_singleton.mp hitem]
      rcases lexeme_cases hlexeme with ⟨-, hverdict, rfl⟩ | ⟨c, w, rfl, -, hsound⟩
      · cases hverdict
        simp [TextItem.Filled, Token.item]
      · have hkind : kind ≠ .endOfInput := hsound.not_end
        simp [TextItem.Filled, Token.item, hkind]

end Lexer

/-! ## Texts -/

section Texts

variable {s : String} {tokens : List Token}

theorem filled_of_tokenize (h : tokenize s = .ok tokens) {item : TextItem}
    (hitem : item ∈ itemsOf tokens) : item.Filled := by
  obtain ⟨t, ht, hitem⟩ := List.mem_flatMap.mp hitem
  obtain ⟨started, before, cs, t', rest, -, hlexes, rfl⟩ := lexesToken_of_tokenize h ht
  rw [Token.items_placed] at hitem
  obtain ⟨front, i, back, hitems, rfl⟩ := mem_layOut hitem
  exact hlexes.filled i (by rw [hitems]; simp)

theorem tiles_of_tokenize (h : tokenize s = .ok tokens) :
    Tiles 0 (itemsOf tokens) s.utf8ByteSize := by
  obtain ⟨items, hitems, hchars, -⟩ := layout_of_tokenize h
  have htiles := tiles_layOut .origin [] items
  rw [← hitems, hchars, byteLength_toList] at htiles
  rwa [← Nat.zero_add s.utf8ByteSize]

/-- The last token stands behind the text and is empty. -/
theorem last_of_tokenize (h : tokenize s = .ok tokens) :
    ∃ front last, tokens = front ++ [last] ∧ (∀ t ∈ front, t.isEndOfInput = false) ∧
      last.isEndOfInput = true ∧ last.lexeme = "" ∧ last.span.start = s.utf8ByteSize ∧
      last.span.stop = s.utf8ByteSize := by
  obtain ⟨front, last, rfl, hfront, hlast⟩ := exists_last_of_tokenize h
  have hitem : last.item ∈ itemsOf (front ++ [last]) := by
    simp [itemsOf, Token.items]
  have hempty : last.lexeme = "" := by
    refine (filled_of_tokenize h hitem).mpr ?_
    simpa [Token.item, Token.isEndOfInput] using hlast
  -- the last tile is that of the last token
  have htiles := tiles_of_tokenize h
  have hsplit : itemsOf (front ++ [last]) =
      (itemsOf front ++ last.leadingTrivia.map Trivia.item) ++ [last.item] := by
    simp [itemsOf, Token.items]
  rw [hsplit] at htiles
  obtain ⟨mid, -, htile⟩ := tiles_append.mp htiles
  obtain ⟨hstart, hstop, hhi⟩ := tiles_singleton htile
  have hstop' : last.span.stop = last.span.start + last.lexeme.utf8ByteSize := by
    rw [show last.span.start = mid from hstart]
    exact hstop
  rw [hempty, String.utf8ByteSize_empty, Nat.add_zero] at hstop'
  exact ⟨front, last, rfl, hfront, hlast, hempty, hstop'.symm.trans hhi, hhi⟩

end Texts

/-- What the spans of the tokens say about a text. -/
structure TilesText (s : String) (tokens : List Token) : Prop where
  tiles : Tiles 0 (itemsOf tokens) s.utf8ByteSize
  /-- Trivia and the other tokens are never empty. -/
  filled : ∀ item ∈ itemsOf tokens, item.kind ≠ .token .endOfInput → item.text ≠ ""
  /-- The end of input is one token, behind all others, and stands behind the text. -/
  ending : ∃ front last, tokens = front ++ [last] ∧ (∀ t ∈ front, t.isEndOfInput = false) ∧
    last.isEndOfInput = true ∧ last.lexeme = "" ∧ last.span.start = s.utf8ByteSize ∧
    last.span.stop = s.utf8ByteSize

/-- **The spans tile the text.** For every text, the spans of all trivia and tokens in order begin
at its first byte and end at its last, with neither gap nor overlap; each covers as many bytes as
its text has, and only the end of input covers none. -/
theorem tokenize_tiles (s : String) : ∃ tokens, tokenize s = .ok tokens ∧ TilesText s tokens := by
  obtain ⟨tokens, h⟩ := exists_tokenize s
  refine ⟨tokens, h, tiles_of_tokenize h, ?_, last_of_tokenize h⟩
  intro item hitem hkind htext
  exact hkind ((filled_of_tokenize h hitem).mp htext)

end LuaLex
