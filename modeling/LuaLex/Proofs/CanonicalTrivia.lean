import Mathlib.Logic.Relation
import LuaLex.Proofs.LineTable
import LuaLex.Proofs.Tiling
import LuaLex.Proofs.TriviaPieces

/-!
# Trivia is taken as long as there is any

Between two tokens everything is taken that blanks, line break characters and comments can make up,
and it is split in one way: a run of blanks is never cut, a carriage return is never parted from the
line feed behind it. A byte order mark counts only where the text begins.

* `Lexer.TriviaStep`: the grammar of trivia, step by step.
* `Lexer.LongestTrivia cs rest`: of all that the grammar allows to take of `cs`, the longest leaves
  `rest`. `Lexer.LexesTrivia.longest`: so much is taken.
* `Lexer.CanonicalPiece`: how the pieces of trivia look.
* `trivia_canonical`: the trivia of every text is of this kind.
-/

namespace LuaLex

/-- The characters that separate tokens inside a line. -/
def IsBlank (c : Char) : Prop := c = ' ' ∨ c = '\t' ∨ c = '\x0b' ∨ c = '\x0c'

theorem isBlank_iff (c : Char) : CharClass.isBlank c = true ↔ IsBlank c := by
  simp [CharClass.isBlank, IsBlank, or_assoc]

/-- The line break characters. -/
def BreaksLine (c : Char) : Prop := c = '\n' ∨ c = '\r'

theorem isLineEnd_iff (c : Char) : CharClass.isLineEnd c = true ↔ BreaksLine c := by
  simp [CharClass.isLineEnd, BreaksLine]

namespace Lexer

open Scan

/-! ## The grammar of trivia -/

/-- Trivia at the beginning of a text: a blank, a line break character or a comment. -/
inductive TriviaStep : List Char → List Char → Prop
  | blank {c : Char} {cs : List Char} : IsBlank c → TriviaStep (c :: cs) cs
  | lineBreak {c : Char} {cs : List Char} : BreaksLine c → TriviaStep (c :: cs) cs
  | comment {cs w rest : List Char} {defect : Option Defect} : Comments cs defect w rest →
      TriviaStep ('-' :: '-' :: cs) rest

/-- Any amount of trivia at the beginning of a text. -/
abbrev TriviaSteps : List Char → List Char → Prop := Relation.ReflTransGen TriviaStep

/-- Of all trivia at the beginning of `cs` the longest leaves `rest`. -/
structure LongestTrivia (cs rest : List Char) : Prop where
  steps : TriviaSteps cs rest
  longest : ∀ rest', TriviaSteps cs rest' → rest <:+ rest'

section Steps

variable {cs rest rest' w : List Char}

theorem TriviaStep.suffix (h : TriviaStep cs rest) : rest <:+ cs := by
  cases h with
  | blank _ => exact List.suffix_cons _ _
  | lineBreak _ => exact List.suffix_cons _ _
  | comment hcomments =>
    rw [hcomments.split]
    exact (List.suffix_append _ _).trans ((List.suffix_cons _ _).trans (List.suffix_cons _ _))

theorem suffix_of_triviaSteps (h : TriviaSteps cs rest) : rest <:+ cs := by
  induction h with
  | refl => exact List.suffix_rfl
  | tail _ hstep ih => exact hstep.suffix.trans ih

theorem TriviaStep.startsTrivia (h : TriviaStep cs rest) : startsTrivia cs = true := by
  cases h with
  | blank hc => simp [Lexer.startsTrivia, (isBlank_iff _).mpr hc]
  | lineBreak hc => simp [Lexer.startsTrivia, (isLineEnd_iff _).mpr hc]
  | comment _ => rfl

/-- No hyphen is a blank or breaks a line. -/
theorem not_isBlank_hyphen : ¬IsBlank '-' ∧ ¬BreaksLine '-' := by
  simp [IsBlank, BreaksLine]

/-- At each place there is one step at most. -/
theorem TriviaStep.unique (h : TriviaStep cs rest) (h' : TriviaStep cs rest') : rest = rest' := by
  cases h with
  | blank hc =>
    cases h' with
    | blank _ => rfl
    | lineBreak _ => rfl
    | comment _ => exact absurd hc not_isBlank_hyphen.1
  | lineBreak hc =>
    cases h' with
    | blank _ => rfl
    | lineBreak _ => rfl
    | comment _ => exact absurd hc not_isBlank_hyphen.2
  | comment hcomments =>
    cases h' with
    | blank hc => exact absurd hc not_isBlank_hyphen.1
    | lineBreak hc => exact absurd hc not_isBlank_hyphen.2
    | comment hcomments' => exact (hcomments.unique hcomments').2.2

theorem LongestTrivia.unique (h : LongestTrivia cs rest) (h' : LongestTrivia cs rest') :
    rest = rest' :=
  (h.longest rest' h'.steps).eq_of_length_le (h'.longest rest h.steps).length_le

/-- Trivia that leaves none is the longest. -/
theorem longest_of_triviaSteps (h : TriviaSteps cs rest) (hrest : startsTrivia rest = false) :
    LongestTrivia cs rest where
  steps := h
  longest := by
    intro rest' h'
    have hunique : Relator.RightUnique TriviaStep := fun _ _ _ => TriviaStep.unique
    rcases Relation.ReflTransGen.total_of_right_unique hunique h h' with hon | hback
    · -- behind trivia that leaves none there is no step
      rcases hon.cases_head with rfl | ⟨_, hstep, -⟩
      · exact List.suffix_rfl
      · rw [hstep.startsTrivia] at hrest
        cases hrest
    · exact suffix_of_triviaSteps hback

theorem triviaSteps_blanks (hw : ∀ x ∈ w, CharClass.isBlank x = true) :
    TriviaSteps (w ++ rest) rest := by
  induction w with
  | nil => exact .refl
  | cons c w ih =>
    obtain ⟨hc, hw⟩ := List.forall_mem_cons.mp hw
    exact .head (.blank ((isBlank_iff c).mp hc)) (ih hw)

/-- Every piece of trivia is some steps. -/
theorem Pieces.steps {kind : TriviaKind} {defect : Option Defect}
    (h : Pieces cs kind defect w rest) : TriviaSteps cs rest := by
  cases h with
  | blanks hw _ => exact triviaSteps_blanks hw
  | feed => exact .single (.lineBreak (Or.inl rfl))
  | lone _ => exact .single (.lineBreak (Or.inr rfl))
  | pair => exact .head (.lineBreak (Or.inr rfl)) (.single (.lineBreak (Or.inl rfl)))
  | comment hcomments => exact .single (.comment hcomments)

/-- **As much trivia is taken as there is.** -/
theorem LexesTrivia.longest {ts : List Trivia} (h : LexesTrivia cs ts rest) :
    LongestTrivia cs rest := by
  have hsteps : TriviaSteps cs rest := by
    induction h with
    | stop _ => exact .refl
    | next htakes _ ih => exact (pieces_of_takes htakes).steps.trans ih
  exact longest_of_triviaSteps hsteps h.startsTrivia_rest

end Steps

/-! ## Where trivia ends -/

/-- Where no trivia begins there is neither a blank nor a line break character nor a comment. -/
theorem not_trivia {cs : List Char} (h : startsTrivia cs = false) :
    (∀ c, cs.head? = some c → ¬IsBlank c ∧ ¬BreaksLine c) ∧ ¬['-', '-'] <+: cs := by
  have hstop : ∀ rest, ¬TriviaStep cs rest := fun rest hstep => by
    rw [hstep.startsTrivia] at h
    cases h
  constructor
  · intro c hc
    obtain ⟨cs, rfl⟩ := List.head?_eq_some_iff.mp hc
    exact ⟨fun hblank => hstop cs (.blank hblank), fun hbreak => hstop cs (.lineBreak hbreak)⟩
  · rintro ⟨cs, rfl⟩
    obtain ⟨defect, w, rest, hcomments⟩ := exists_comments cs
    exact hstop rest (.comment hcomments)

/-- The text behind the byte order mark, if it is looked for and found. -/
def behindMark : Bool → List Char → List Char
  | false, '\ufeff' :: cs => cs
  | _, cs => cs

theorem LexesMark.behindMark_eq {started : Bool} {cs rest : List Char} {mark : List Trivia}
    (h : LexesMark started cs mark rest) : behindMark started cs = rest := by
  cases h with
  | passed => rfl
  | absent hmark =>
    unfold behindMark
    split
    · exact absurd rfl hmark
    · rfl
  | present => rfl

/-! ## The pieces of a text -/

/-- How a piece `w` of trivia looks that stands in front of `rest`. -/
structure CanonicalPiece (kind : TriviaKind) (w rest : List Char) : Prop where
  /-- A run of blanks, which is not cut. -/
  whitespace : kind = .whitespace →
    w ≠ [] ∧ (∀ c ∈ w, IsBlank c) ∧ ∀ c, rest.head? = some c → ¬IsBlank c
  /-- One line break. -/
  newline : kind = .newline →
    w = ['\n'] ∨ w = ['\r', '\n'] ∨ w = ['\r'] ∧ rest.head? ≠ some '\n'
  comment : kind = .comment → ['-', '-'] <+: w

theorem Pieces.canonical {cs w rest : List Char} {kind : TriviaKind} {defect : Option Defect}
    (h : Pieces cs kind defect w rest) : CanonicalPiece kind w rest := by
  cases h with
  | blanks hw hrest =>
    refine ⟨fun _ => ⟨by simp, fun c hc => (isBlank_iff c).mp (hw c hc), fun c hc hblank => ?_⟩,
      by simp, by simp⟩
    have hnot := hrest c hc
    rw [(isBlank_iff c).mpr hblank] at hnot
    cases hnot
  | feed => exact ⟨by simp, fun _ => Or.inl rfl, by simp⟩
  | lone hfeed => exact ⟨by simp, fun _ => Or.inr (Or.inr ⟨rfl, hfeed⟩), by simp⟩
  | pair => exact ⟨by simp, fun _ => Or.inr (Or.inl rfl), by simp⟩
  | comment _ => exact ⟨by simp, by simp, fun _ => List.prefix_append ['-', '-'] _⟩

end Lexer

open Lexer

section Texts

variable {s : String} {tokens : List Token}

/-- What stands at the place of an item is its text, and behind it what is left there. -/
theorem drop_of_item (h : tokenize s = .ok tokens) {item : TextItem}
    (hitem : item ∈ itemsOf tokens) :
    ∃ after, dropBytes? s.toList item.span.start = some (item.chars ++ after) ∧
      dropBytes? s.toList item.span.stop = some after := by
  obtain ⟨before, after, hs, hstart⟩ := item_begins h hitem
  refine ⟨after, ?_, ?_⟩
  · rw [hs, hstart, dropBytes?_append]
  · rw [hs, item_stop h hitem, hstart, ← byteLength_append, ← List.append_assoc,
      dropBytes?_append]

/-- A piece of trivia is the byte order mark, which is the first item of all, or it is canonical. -/
theorem canonical_of_trivia (h : tokenize s = .ok tokens) {t : Token} (ht : t ∈ tokens)
    {u : Trivia} (hu : u ∈ t.leadingTrivia) :
    ∃ rest, dropBytes? s.toList u.span.start = some (u.text.toList ++ rest) ∧
      dropBytes? s.toList u.span.stop = some rest ∧
        (u.IsMark ∧ u.span.start = 0 ∧ (itemsOf tokens).head? = some u.item ∨
          CanonicalPiece u.kind u.text.toList rest) := by
  obtain ⟨rest, hstart, hstop⟩ := drop_of_item h (trivia_mem_itemsOf ht hu)
  refine ⟨rest, hstart, hstop, ?_⟩
  obtain ⟨before, cs, hs, hbefore, ⟨hmark, rfl, hfirst⟩ | ⟨rest', htakes⟩⟩ :=
    trivia_of_tokenize h ht hu
  · exact Or.inl ⟨hmark, hbefore, hfirst⟩
  · have hplace : dropBytes? s.toList u.span.start = some (u.text.toList ++ rest') := by
      rw [hs, hbefore, dropBytes?_append, htakes.split]
    obtain rfl := List.append_cancel_left (Option.some.inj (hplace.symm.trans hstart))
    exact Or.inr (pieces_of_takes htakes).canonical

/-- The first item of all has nothing in front of it. -/
theorem front_eq_nil (h : tokenize s = .ok tokens) {front back : List TextItem} {a : TextItem}
    (hitems : itemsOf tokens = front ++ a :: back) (hfirst : (itemsOf tokens).head? = some a)
    (htext : a.text ≠ "") : front = [] := by
  cases front with
  | nil => rfl
  | cons i front =>
    exfalso
    rw [hitems] at hfirst
    obtain rfl : i = a := Option.some.inj hfirst
    have hpairs := pairwise_of_tokenize h
    rw [hitems] at hpairs
    have hle := (List.pairwise_cons.mp hpairs).1 i (by simp)
    have hlength : i.span.stop = i.span.start + byteLength i.chars :=
      item_stop h (by simp [hitems])
    have hpos : 0 < byteLength i.chars :=
      byteLength_pos fun hnil => htext (String.toList_eq_nil_iff.mp hnil)
    omega

/-- Two runs of blanks do not stand side by side, unless the first one is the byte order mark. -/
theorem mark_of_adjacent (h : tokenize s = .ok tokens) {front back : List TextItem}
    {a b : TextItem} (hitems : itemsOf tokens = front ++ a :: b :: back)
    (ha : a.kind = .trivia .whitespace) (hb : b.kind = .trivia .whitespace) :
    front = [] ∧ a.text = "\ufeff" := by
  have hadjacent : b.span.start = a.span.stop := (hitems ▸ tiles_of_tokenize h).start_eq_stop
  have hmem : a ∈ itemsOf tokens ∧ b ∈ itemsOf tokens := by simp [hitems]
  obtain ⟨t, ht, u, hu, rfl⟩ := exists_trivia_of_item hmem.1 ha
  obtain ⟨t', ht', v, hv, rfl⟩ := exists_trivia_of_item hmem.2 hb
  obtain ⟨rest, -, hstop, ⟨hmark, -, hfirst⟩ | hcanonical⟩ := canonical_of_trivia h ht hu
  · exact ⟨front_eq_nil h hitems hfirst (by simp [Trivia.item, hmark.text]), hmark.text⟩
  · exfalso
    obtain ⟨hne, -, hlast⟩ := hcanonical.whitespace (ItemKind.trivia.inj ha)
    obtain ⟨rest', hstart', -, ⟨-, hzero, -⟩ | hcanonical'⟩ := canonical_of_trivia h ht' hv
    · -- the byte order mark has nothing in front of it
      have hlength : u.span.stop = u.span.start + byteLength u.text.toList := item_stop h hmem.1
      have hpos := byteLength_pos hne
      have hzero' : u.span.stop = 0 := hadjacent.symm.trans hzero
      omega
    · -- the second run goes on where the first one has ended
      obtain ⟨hne', hblank, -⟩ := hcanonical'.whitespace (ItemKind.trivia.inj hb)
      obtain ⟨c, w, hv⟩ := List.exists_cons_of_ne_nil hne'
      have hplace : dropBytes? s.toList u.span.stop = some (v.text.toList ++ rest') :=
        (congrArg (dropBytes? s.toList) hadjacent.symm).trans hstart'
      obtain rfl := Option.some.inj (hstop.symm.trans hplace)
      rw [hv] at hlast hblank
      exact hlast c rfl (hblank c List.mem_cons_self)

/-- **As much trivia stands in front of a token as there is.** -/
theorem longest_of_split {front back : List Token} {t : Token}
    (h : tokenize s = .ok (front ++ t :: back)) :
    ∃ rest, dropBytes? s.toList t.begins = some (triviaChars t.leadingTrivia ++ rest) ∧
      dropBytes? s.toList t.span.start = some rest ∧ startsTrivia rest = false ∧
      LongestTrivia (behindMark (!front.isEmpty) (triviaChars t.leadingTrivia ++ rest)) rest := by
  obtain ⟨cs, t', rest, hs, hlexes, rfl⟩ := lexesToken_of_split h
  cases hlexes with
  | @mk mid₁ mid₂ w _ mark found kind defect hmark hfound hlexeme =>
    have hsplit : triviaChars (mark ++ found) ++ mid₂ = cs := by
      rw [triviaChars_append, List.append_assoc, ← hfound.split, ← hmark.split]
    rw [Token.begins_placed, Token.start_placed, Token.triviaChars_placed,
      Position.origin_behind_offset, ← byteLength_append]
    refine ⟨mid₂, ?_, ?_, hfound.startsTrivia_rest, ?_⟩
    · rw [hsplit, hs, dropBytes?_append]
    · rw [hs, ← hsplit, ← List.append_assoc, dropBytes?_append]
    · rw [hsplit, hmark.behindMark_eq]
      exact hfound.longest

end Texts

/-- How the trivia of a text is split. -/
structure CanonicalTrivia (s : String) (tokens : List Token) : Prop where
  /-- A piece of trivia is the byte order mark, in front of all other items at the first byte of the
  text, or it is canonical. -/
  pieces : ∀ t ∈ tokens, ∀ u ∈ t.leadingTrivia, ∃ rest,
    dropBytes? s.toList u.span.start = some (u.text.toList ++ rest) ∧
      (u.IsMark ∧ u.span.start = 0 ∧ (itemsOf tokens).head? = some u.item ∨
        CanonicalPiece u.kind u.text.toList rest)
  /-- Where a token stands no trivia is left. -/
  stops : ∀ t ∈ tokens, ∃ rest, dropBytes? s.toList t.span.start = some rest ∧
    (∀ c, rest.head? = some c → ¬IsBlank c ∧ ¬BreaksLine c) ∧ ¬['-', '-'] <+: rest
  /-- The trivia of a token is the longest that the grammar allows behind the token before. For the
  first token the byte order mark is left out. -/
  longest : ∀ front t back, tokens = front ++ t :: back → ∃ rest,
    dropBytes? s.toList t.begins = some (triviaChars t.leadingTrivia ++ rest) ∧
      dropBytes? s.toList t.span.start = some rest ∧
        LongestTrivia (behindMark (!front.isEmpty) (triviaChars t.leadingTrivia ++ rest)) rest
  /-- Runs of blanks do not stand side by side. Only the byte order mark may have one behind it. -/
  parted : ∀ front a b back, itemsOf tokens = front ++ a :: b :: back →
    a.kind = .trivia .whitespace → b.kind = .trivia .whitespace →
      front = [] ∧ a.text = "\ufeff"

/-- **Trivia is split in one way, and none is left over.** In every text the pieces of trivia are
the byte order mark at the beginning, whole runs of blanks, whole line breaks and comments; no token
begins where there is trivia, and of all that the grammar allows in front of it the longest is
taken. -/
theorem trivia_canonical (s : String) :
    ∃ tokens, tokenize s = .ok tokens ∧ CanonicalTrivia s tokens := by
  obtain ⟨tokens, h⟩ := exists_tokenize s
  refine ⟨tokens, h, ?_, ?_, ?_, ?_⟩
  · intro t ht u hu
    obtain ⟨rest, hstart, -, hpiece⟩ := canonical_of_trivia h ht hu
    exact ⟨rest, hstart, hpiece⟩
  · intro t ht
    obtain ⟨front, back, rfl⟩ := List.append_of_mem ht
    obtain ⟨rest, -, hstart, hstop, -⟩ := longest_of_split h
    exact ⟨rest, hstart, not_trivia hstop⟩
  · rintro front t back rfl
    obtain ⟨rest, hbegins, hstart, -, hlongest⟩ := longest_of_split h
    exact ⟨rest, hbegins, hstart, hlongest⟩
  · intro front a b back hitems ha hb
    exact mark_of_adjacent h hitems ha hb

end LuaLex
