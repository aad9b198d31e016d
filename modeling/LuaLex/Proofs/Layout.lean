import LuaLex.Proofs.Place
import LuaLex.Token

/-!
# Items and their layout

The items of a list of tokens are its pieces of text in order: the trivia in front of each token,
then the token itself. Their spans hold nothing that is not in their texts. Laying pieces of text
out from a place `p` on (`layOut`) gives each the span from the place behind those before it to the
place behind itself, and the characters at the end of the layout decide about a carriage return
there.

* `toList_reconstruct`: the reconstructed text is the text of the items.
* `itemsOf_layOut`: laying out tokens lays out their items.
* `mem_layOut_items`: the span of an item of a layout, from what stands before and behind it.
* `pairwise_layOut_items`: no item begins before one in front of it has ended.
-/

namespace LuaLex

/-! ## Laying out -/

section LayOut

variable {α β : Type} (chars : α → List Char) (put : Position → List Char → α → α)

/-- Puts pieces one behind the other, from the place `p` on and in front of `rest`. A piece is put
at its place by `put`, which is told the text behind it. -/
def layOut (p : Position) (rest : List Char) : List α → List α
  | [] => []
  | a :: as =>
    put p (as.flatMap chars ++ rest) a ::
      layOut (p.behind (chars a) (as.flatMap chars ++ rest)) rest as

variable {chars put}

theorem layOut_append (p : Position) (rest : List Char) (as bs : List α) :
    layOut chars put p rest (as ++ bs) =
      layOut chars put p (bs.flatMap chars ++ rest) as ++
        layOut chars put (p.behind (as.flatMap chars) (bs.flatMap chars ++ rest)) rest bs := by
  induction as generalizing p with
  | nil => rfl
  | cons a as ih =>
    simp only [List.cons_append, layOut, ih, List.flatMap_append, List.flatMap_cons,
      List.append_assoc, Position.behind_append]

/-- Pieces keep their text when they are put at their place. -/
theorem flatMap_chars_layOut (h : ∀ p rest a, chars (put p rest a) = chars a) (p : Position)
    (rest : List Char) (as : List α) :
    (layOut chars put p rest as).flatMap chars = as.flatMap chars := by
  induction as generalizing p with
  | nil => rfl
  | cons a as ih => rw [layOut, List.flatMap_cons, List.flatMap_cons, h, ih]

/-- Pieces that are made of smaller ones are laid out by laying out those. -/
theorem flatMap_layOut {chars' : β → List Char} {put' : Position → List Char → β → β}
    {parts : α → List β} (hchars : ∀ a, (parts a).flatMap chars' = chars a)
    (hput : ∀ p rest a, parts (put p rest a) = layOut chars' put' p rest (parts a))
    (p : Position) (rest : List Char) (as : List α) :
    (layOut chars put p rest as).flatMap parts = layOut chars' put' p rest (as.flatMap parts) := by
  have hflat : ∀ as : List α, (as.flatMap parts).flatMap chars' = as.flatMap chars := by
    intro as
    rw [List.flatMap_assoc]
    simp only [hchars]
  induction as generalizing p with
  | nil => rfl
  | cons a as ih =>
    rw [layOut, List.flatMap_cons, List.flatMap_cons, layOut_append, hput, ih, hflat, hchars]

@[simp] theorem length_layOut (p : Position) (rest : List Char) (as : List α) :
    (layOut chars put p rest as).length = as.length := by
  induction as generalizing p with
  | nil => rfl
  | cons a as ih => rw [layOut, List.length_cons, List.length_cons, ih]

/-- What does not depend on the place is the same in the layout. -/
theorem map_layOut {f : α → β} (h : ∀ p rest a, f (put p rest a) = f a) (p : Position)
    (rest : List Char) (as : List α) : (layOut chars put p rest as).map f = as.map f := by
  induction as generalizing p with
  | nil => rfl
  | cons a as ih => rw [layOut, List.map_cons, List.map_cons, h, ih]

/-- Two parts of a layout are the layouts of two parts. -/
theorem layOut_split {p : Position} {rest : List Char} {as xs ys : List α}
    (h : layOut chars put p rest as = xs ++ ys) :
    ∃ as₁ as₂, as = as₁ ++ as₂ ∧ xs = layOut chars put p (as₂.flatMap chars ++ rest) as₁ ∧
      ys =
        layOut chars put (p.behind (as₁.flatMap chars) (as₂.flatMap chars ++ rest)) rest as₂ := by
  have hsplit : layOut chars put p rest (as.take xs.length ++ as.drop xs.length) = _ :=
    layOut_append p rest _ _
  rw [List.take_append_drop, h] at hsplit
  have hlength : xs.length ≤ as.length := by
    have := congrArg List.length h
    rw [length_layOut, List.length_append] at this
    omega
  obtain ⟨hxs, hys⟩ := List.append_inj hsplit (by simp [hlength])
  exact ⟨_, _, (List.take_append_drop _ _).symm, hxs, hys⟩

/-- A piece of a layout stands behind those before it. -/
theorem mem_layOut {p : Position} {rest : List Char} {as : List α} {b : α}
    (hb : b ∈ layOut chars put p rest as) :
    ∃ before a after, as = before ++ a :: after ∧
      b = put (p.behind (before.flatMap chars) (chars a ++ (after.flatMap chars ++ rest)))
        (after.flatMap chars ++ rest) a := by
  induction as generalizing p with
  | nil => cases hb
  | cons a as ih =>
    rcases List.mem_cons.mp hb with rfl | hb
    · exact ⟨[], a, as, rfl, rfl⟩
    · obtain ⟨before, a', after, rfl, rfl⟩ := ih hb
      refine ⟨a :: before, a', after, rfl, ?_⟩
      simp only [List.flatMap_cons, List.flatMap_append, Position.behind_append, List.append_assoc]

end LayOut

/-! ## Items -/

/-- What an item is: trivia, or the lexeme of a token. -/
inductive ItemKind where
  | trivia (kind : TriviaKind)
  | token (kind : TokenKind)
  deriving Repr, DecidableEq

/-- A piece of a lexed text. -/
structure TextItem where
  kind : ItemKind
  text : String
  span : Span
  defect : Option Defect
  deriving Repr, DecidableEq

/-- The characters of an item. -/
def TextItem.chars (item : TextItem) : List Char := item.text.toList

/-- A piece of trivia as an item. -/
def Trivia.item (t : Trivia) : TextItem := ⟨.trivia t.kind, t.text, t.span, t.defect⟩

/-- A token without its trivia as an item. -/
def Token.item (t : Token) : TextItem := ⟨.token t.kind, t.lexeme, t.span, t.defect⟩

/-- The items of a token: the trivia in front of it, then the token itself. -/
def Token.items (t : Token) : List TextItem := t.leadingTrivia.map Trivia.item ++ [t.item]

/-- The items of a list of tokens, in the order of the text. -/
def itemsOf (tokens : List Token) : List TextItem := tokens.flatMap Token.items

/-- The characters of a token with its trivia. -/
def Token.chars (t : Token) : List Char := t.items.flatMap TextItem.chars

@[simp] theorem itemsOf_nil : itemsOf [] = [] := rfl

@[simp] theorem itemsOf_cons (t : Token) (ts : List Token) :
    itemsOf (t :: ts) = t.items ++ itemsOf ts := List.flatMap_cons

theorem item_mem_itemsOf {tokens : List Token} {t : Token} (ht : t ∈ tokens) :
    t.item ∈ itemsOf tokens :=
  List.mem_flatMap.mpr ⟨t, ht, List.mem_append_right _ (List.mem_singleton.mpr rfl)⟩

theorem trivia_mem_itemsOf {tokens : List Token} {t : Token} (ht : t ∈ tokens) {trivia : Trivia}
    (htrivia : trivia ∈ t.leadingTrivia) : trivia.item ∈ itemsOf tokens :=
  List.mem_flatMap.mpr ⟨t, ht, List.mem_append_left _ (List.mem_map_of_mem htrivia)⟩

/-- The items that are trivia are the trivia of the tokens. -/
theorem exists_trivia_of_item {tokens : List Token} {item : TextItem} {kind : TriviaKind}
    (hitem : item ∈ itemsOf tokens) (hkind : item.kind = .trivia kind) :
    ∃ t ∈ tokens, ∃ trivia ∈ t.leadingTrivia, trivia.item = item := by
  obtain ⟨t, ht, hitem⟩ := List.mem_flatMap.mp hitem
  rcases List.mem_append.mp hitem with hleading | hlexeme
  · obtain ⟨trivia, htrivia, rfl⟩ := List.mem_map.mp hleading
    exact ⟨t, ht, trivia, htrivia, rfl⟩
  · obtain rfl := List.mem_singleton.mp hlexeme
    cases hkind

theorem toList_fullText (t : Token) : t.fullText.toList = t.chars := by
  simp [Token.fullText, Token.chars, Token.items, Trivia.item, Token.item, TextItem.chars,
    String.toList_join, List.flatMap_map, List.flatMap_append]

theorem toList_reconstruct (tokens : List Token) :
    (reconstruct tokens).toList = tokens.flatMap Token.chars := by
  rw [reconstruct, String.toList_join, List.flatMap_map]
  simp only [toList_fullText]

theorem flatMap_chars_itemsOf (tokens : List Token) :
    (itemsOf tokens).flatMap TextItem.chars = tokens.flatMap Token.chars :=
  List.flatMap_assoc

/-- The defects of tokens are those of their items. -/
theorem flatMap_defects (tokens : List Token) :
    tokens.flatMap Token.defects =
      (itemsOf tokens).filterMap fun item => item.defect.map (·, item.span) := by
  have h : ∀ t : Token,
      t.defects = t.items.filterMap fun item => item.defect.map (·, item.span) := by
    intro t
    rw [Token.items, List.filterMap_append, List.filterMap_map]
    cases hd : t.defect <;> simp [Token.defects, Token.item, hd] <;> rfl
  rw [itemsOf, List.filterMap_flatMap]
  exact congrArg (tokens.flatMap ·) (funext h)

/-! ## Items at their places -/

/-- An item at the place `p`, in front of `rest`. -/
def TextItem.placed (p : Position) (rest : List Char) (item : TextItem) : TextItem :=
  { item with span := p.spanTo (p.behind item.chars rest) }

theorem TextItem.chars_placed (p : Position) (rest : List Char) (item : TextItem) :
    (item.placed p rest).chars = item.chars := rfl

/-- A piece of trivia at the place `p`, in front of `rest`. -/
def Trivia.placed (p : Position) (rest : List Char) (t : Trivia) : Trivia :=
  { t with span := p.spanTo (p.behind t.text.toList rest) }

/-- The characters of a list of trivia. -/
def triviaChars (ts : List Trivia) : List Char := ts.flatMap (·.text.toList)

/-- Trivia from the place `p` on, in front of `rest`. -/
def layOutTrivia (p : Position) (rest : List Char) (ts : List Trivia) : List Trivia :=
  layOut (·.text.toList) Trivia.placed p rest ts

theorem triviaChars_cons (t : Trivia) (ts : List Trivia) :
    triviaChars (t :: ts) = t.text.toList ++ triviaChars ts := List.flatMap_cons

theorem triviaChars_append (ts us : List Trivia) :
    triviaChars (ts ++ us) = triviaChars ts ++ triviaChars us := List.flatMap_append

theorem layOutTrivia_cons (p : Position) (rest : List Char) (t : Trivia) (ts : List Trivia) :
    layOutTrivia p rest (t :: ts) =
      t.placed p (triviaChars ts ++ rest) ::
        layOutTrivia (p.behind t.text.toList (triviaChars ts ++ rest)) rest ts := rfl

/-- A token whose trivia begins at the place `p`, in front of `rest`. -/
def Token.placed (p : Position) (rest : List Char) (t : Token) : Token :=
  let q := p.behind (triviaChars t.leadingTrivia) (t.lexeme.toList ++ rest)
  { t with
    leadingTrivia := layOutTrivia p (t.lexeme.toList ++ rest) t.leadingTrivia
    span := q.spanTo (q.behind t.lexeme.toList rest) }

/-- A token without trivia at the beginning of a text. -/
theorem Token.placed_alone (kind : TokenKind) (s : String) (span : Span)
    (defect : Option Defect) (rest : List Char) :
    Token.placed .origin rest ⟨kind, s, [], span, defect⟩ =
      ⟨kind, s, [], ⟨0, s.utf8ByteSize, 1, 1⟩, defect⟩ := by
  have hspan : Position.origin.spanTo (Position.origin.behind s.toList rest) =
      ⟨0, s.utf8ByteSize, 1, 1⟩ := by
    rw [Position.spanTo, Position.behind_offset, byteLength_toList]
    simp [Position.origin]
  rw [← hspan]
  rfl

/-- Tokens from the place `p` on, in front of `rest`. -/
def layOutTokens (p : Position) (rest : List Char) (ts : List Token) : List Token :=
  layOut Token.chars Token.placed p rest ts

/-- Items from the place `p` on, in front of `rest`. -/
def layOutItems (p : Position) (rest : List Char) (items : List TextItem) : List TextItem :=
  layOut TextItem.chars TextItem.placed p rest items

theorem layOutTokens_cons (p : Position) (rest : List Char) (t : Token) (ts : List Token) :
    layOutTokens p rest (t :: ts) =
      t.placed p (ts.flatMap Token.chars ++ rest) ::
        layOutTokens (p.behind t.chars (ts.flatMap Token.chars ++ rest)) rest ts := rfl

theorem Token.chars_eq (t : Token) : t.chars = triviaChars t.leadingTrivia ++ t.lexeme.toList := by
  simp [Token.chars, Token.items, triviaChars, Trivia.item, Token.item, TextItem.chars,
    List.flatMap_append, List.flatMap_map]

theorem map_item_layOutTrivia (p : Position) (rest : List Char) (ts : List Trivia) :
    (layOutTrivia p rest ts).map Trivia.item = layOutItems p rest (ts.map Trivia.item) := by
  rw [List.map_eq_flatMap, List.map_eq_flatMap]
  exact flatMap_layOut (fun t => by simp [Trivia.item, TextItem.chars]) (fun _ _ _ => rfl) p rest ts

theorem Token.items_placed (p : Position) (rest : List Char) (t : Token) :
    (t.placed p rest).items = layOutItems p rest t.items := by
  have hchars : (t.leadingTrivia.map Trivia.item).flatMap TextItem.chars =
      triviaChars t.leadingTrivia := by
    rw [List.flatMap_map]
    rfl
  rw [Token.items, Token.items, layOutItems, layOut_append, hchars]
  simp only [Token.placed, map_item_layOutTrivia, List.flatMap_singleton]
  rfl

theorem Token.chars_placed (p : Position) (rest : List Char) (t : Token) :
    (t.placed p rest).chars = t.chars := by
  rw [Token.chars, Token.items_placed]
  exact flatMap_chars_layOut TextItem.chars_placed p rest t.items

theorem Token.triviaChars_placed (p : Position) (rest : List Char) (t : Token) :
    triviaChars (t.placed p rest).leadingTrivia = triviaChars t.leadingTrivia := by
  show (layOutTrivia p (t.lexeme.toList ++ rest) t.leadingTrivia).flatMap _ = _
  rw [layOutTrivia, flatMap_chars_layOut]
  · rfl
  · intro _ _ _
    rfl

/-- The lexeme of a token stands behind its trivia. -/
theorem Token.start_placed (p : Position) (rest : List Char) (t : Token) :
    (t.placed p rest).span.start = p.offset + byteLength (triviaChars t.leadingTrivia) :=
  Position.behind_offset p _ _

theorem Token.stop_placed (p : Position) (rest : List Char) (t : Token) :
    (t.placed p rest).span.stop = (p.behind t.chars rest).offset := by
  rw [Token.chars_eq, Position.behind_append]
  rfl

/-- **Laying out tokens lays out their items.** -/
theorem itemsOf_layOut (p : Position) (rest : List Char) (ts : List Token) :
    itemsOf (layOutTokens p rest ts) = layOutItems p rest (itemsOf ts) :=
  flatMap_layOut (fun _ => rfl) Token.items_placed p rest ts

/-- The span of an item reaches from the place behind what is before it to the place behind it. -/
theorem mem_layOut_items {p : Position} {rest : List Char} {items : List TextItem} {item : TextItem}
    (h : item ∈ layOutItems p rest items) :
    ∃ before after, items.flatMap TextItem.chars = before ++ (item.chars ++ after) ∧
      item.span = (p.behind before (item.chars ++ (after ++ rest))).spanTo
        (p.behind (before ++ item.chars) (after ++ rest)) := by
  obtain ⟨before, i, after, rfl, rfl⟩ := mem_layOut h
  refine ⟨before.flatMap TextItem.chars, after.flatMap TextItem.chars, ?_, ?_⟩
  · rw [List.flatMap_append, List.flatMap_cons]
    rfl
  · rw [Position.behind_append]
    rfl

/-- No item begins before one in front of it has ended. -/
theorem pairwise_layOut_items (p : Position) (rest : List Char) (items : List TextItem) :
    (layOutItems p rest items).Pairwise fun i j => i.span.stop ≤ j.span.start := by
  induction items generalizing p with
  | nil => exact List.Pairwise.nil
  | cons i items ih =>
    refine List.Pairwise.cons ?_ (ih _)
    intro j hj
    obtain ⟨before, after, -, hspan⟩ := mem_layOut_items hj
    rw [hspan]
    show _ ≤ (Position.behind _ _ _).offset
    rw [Position.behind_offset]
    exact Nat.le_add_right _ _

end LuaLex
