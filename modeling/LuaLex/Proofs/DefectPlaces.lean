import LuaLex.Proofs.MaximalMunch
import LuaLex.Proofs.QuotedStrings
import LuaLex.Proofs.Tiling
import LuaLex.Proofs.TriviaPieces

/-!
# Where defects are

The scanners give defects to malformed tokens and to long comments that are not closed, and to
nothing else. A defect which says that the text ended too early is found at the end of the text
only: looking for the missing delimiter has taken all that was left.

* `Lexer.defectsEnd_lexeme`, `Lexer.defect_of_trivia`: which defects the scanners give, and what
  they leave then.
* `stop_of_isUnterminated`: an unterminated item reaches to the end of the text.
* `defects_placed`: where the defects of a text are.
-/

namespace LuaLex

/-- Whether an item lacks its closing delimiter. -/
def TextItem.isUnterminated (item : TextItem) : Bool := item.defect.any Defect.isUnterminated

/-! ## What is left behind a defect -/

namespace Lexer

open Scan

/-- What stands behind a lexeme with the defect `d`: nothing, if the defect is that a delimiter was
not found. No lexeme is a comment. -/
structure DefectLeaves (d : Defect) (rest : List Char) : Prop where
  not_comment : d ≠ .unterminatedLongComment
  ends : d.isUnterminated = true → rest = []

theorem DefectLeaves.nil {d : Defect} (h : d ≠ .unterminatedLongComment) : DefectLeaves d [] :=
  ⟨h, fun _ => rfl⟩

theorem DefectLeaves.of_terminated {d : Defect} {rest : List Char} (h : d.isUnterminated = false) :
    DefectLeaves d rest where
  not_comment := by
    rintro rfl
    cases h
  ends hd := by
    rw [h] at hd
    cases hd

/-- The defects that `m` gives to lexemes which begin with `c`. -/
def DefectsEnd (c : Char) (m : Scan Verdict) : Prop :=
  ∀ {cs w rest : List Char} {kind : TokenKind} {d : Defect},
    Takes m [] (c :: cs) (kind, some d) w rest → DefectLeaves d rest

theorem defectsEnd_name (c : Char) : DefectsEnd c name := by
  intro cs w rest kind d h
  obtain ⟨hverdict, -⟩ := h.unique (takes_name _)
  cases congrArg Prod.snd hverdict

theorem defectsEnd_number (c : Char) : DefectsEnd c number := by
  intro cs w rest kind d h
  obtain ⟨hverdict, -⟩ := h.unique (takes_number _)
  unfold numberVerdict at hverdict
  split at hverdict
  · cases congrArg Prod.snd hverdict
  · cases congrArg Prod.snd hverdict
    exact .of_terminated rfl

theorem defectsEnd_quoted {c : Char} (hc : c ≠ '\\') : DefectsEnd c (quoted c) := by
  intro cs w rest kind d h
  have hquotes := quotes_of_takes hc h
  generalize hverdict : (kind, some d) = verdict at hquotes
  cases hquotes with
  | string _ => cases congrArg Prod.snd hverdict
  | unclosed _ =>
    cases congrArg Prod.snd hverdict
    exact .nil (by decide)

theorem defectsEnd_bracket : DefectsEnd '[' bracket := by
  intro cs w rest kind d h
  have hbrackets := brackets_of_takes h
  generalize hverdict : (kind, some d) = verdict at hbrackets
  cases hbrackets with
  | string _ => cases congrArg Prod.snd hverdict
  | unclosed _ =>
    cases congrArg Prod.snd hverdict
    exact .nil (by decide)
  | invalid _ _ =>
    cases congrArg Prod.snd hverdict
    exact .of_terminated rfl
  | alone _ _ => cases congrArg Prod.snd hverdict

theorem defectsEnd_symbol (c : Char) : DefectsEnd c (symbol c) := by
  intro cs w rest kind d h
  obtain ⟨hverdict, -⟩ := h.unique (takes_symbol c cs)
  unfold symbolVerdict at hverdict
  split at hverdict
  · cases congrArg Prod.snd hverdict
  · cases congrArg Prod.snd hverdict
    exact .of_terminated rfl

theorem defectsEnd_lexemeOf (c : Char) : DefectsEnd c (lexemeOf c) := by
  unfold lexemeOf
  split
  · exact defectsEnd_name c
  split
  · exact defectsEnd_number c
  split
  · refine defectsEnd_quoted ?_
    rintro rfl
    rename_i hquote
    exact absurd hquote (by decide)
  split
  · rename_i hbracket
    exact hbracket ▸ defectsEnd_bracket
  · exact defectsEnd_symbol c

/-- **A lexeme that lacks its closing delimiter** leaves nothing. -/
theorem defectsEnd_lexeme {cs w rest : List Char} {kind : TokenKind} {d : Defect}
    (h : Takes lexeme [] cs (kind, some d) w rest) : DefectLeaves d rest := by
  replace h := (Takes.bind_iff (.current [] cs)).mp h
  cases cs with
  | nil =>
    obtain ⟨hverdict, -⟩ := h.unique (.pure _ _ _)
    cases congrArg Prod.snd hverdict
  | cons c cs => exact defectsEnd_lexemeOf c h

/-- **The trivia with defects** are long comments that are not closed, and they leave nothing. -/
theorem defect_of_trivia {cs w rest : List Char} {kind : TriviaKind} {d : Defect}
    (h : Takes triviaText [] cs (some (kind, some d)) w rest) :
    kind = .comment ∧ d = .unterminatedLongComment ∧ rest = [] := by
  cases pieces_of_takes h with
  | comment hcomments =>
    cases hcomments with
    | unclosed _ => exact ⟨rfl, rfl, rfl⟩

end Lexer

/-! ## Texts -/

section Texts

variable {s : String} {tokens : List Token}

/-- The defect of an item is one that its kind can have. -/
structure TextItem.Suits (item : TextItem) (d : Defect) : Prop where
  token : ∀ kind, item.kind = .token kind → d ≠ .unterminatedLongComment
  trivia : ∀ kind, item.kind = .trivia kind → kind = .comment ∧ d = .unterminatedLongComment

/-- **Every defect** suits its item, and if it is that the closing delimiter is missing, the item
reaches to the end of the text. -/
theorem defect_of_item (h : tokenize s = .ok tokens) {item : TextItem}
    (hitem : item ∈ itemsOf tokens) {d : Defect} (hd : item.defect = some d) :
    item.Suits d ∧ (d.isUnterminated = true → item.span.stop = s.utf8ByteSize) := by
  have hend : ∀ {before cs rest}, s.toList = before ++ cs → item.span.start = byteLength before →
      cs = item.chars ++ rest → rest = [] → item.span.stop = s.utf8ByteSize := by
    rintro before cs rest hs hstart rfl rfl
    rw [item_stop h hitem, hstart, ← byteLength_append, ← byteLength_toList, hs, List.append_nil]
  obtain ⟨t, ht, hitem'⟩ := List.mem_flatMap.mp hitem
  rcases List.mem_append.mp hitem' with hleading | hlexeme
  · obtain ⟨trivia, htrivia, rfl⟩ := List.mem_map.mp hleading
    obtain ⟨before, cs, hs, hstart, ⟨hmark, -⟩ | ⟨rest, htakes⟩⟩ := trivia_of_tokenize h ht htrivia
    · cases hmark.defect.symm.trans hd
    · rw [show trivia.defect = some d from hd] at htakes
      obtain ⟨hkind, hdefect, hrest⟩ := Lexer.defect_of_trivia htakes
      refine ⟨⟨fun kind h => ?_, fun kind h => ?_⟩, fun _ => hend hs hstart htakes.split hrest⟩
      · cases h
      · cases h
        exact ⟨hkind, hdefect⟩
  · obtain rfl := List.mem_singleton.mp hlexeme
    obtain ⟨before, cs, rest, hs, hstart, -, htakes⟩ := lexeme_of_tokenize h ht
    rw [show t.defect = some d from hd] at htakes
    have hleaves := Lexer.defectsEnd_lexeme htakes
    refine ⟨⟨fun _ _ => hleaves.not_comment, fun kind h => ?_⟩,
      fun hcut => hend hs hstart htakes.split (hleaves.ends hcut)⟩
    cases h

theorem stop_of_isUnterminated (h : tokenize s = .ok tokens) {item : TextItem}
    (hitem : item ∈ itemsOf tokens) (hcut : item.isUnterminated = true) :
    item.span.stop = s.utf8ByteSize := by
  obtain ⟨d, hd, hcut⟩ := (Option.any_eq_true _ _).mp hcut
  exact (defect_of_item h hitem hd).2 hcut

/-- Behind an item that reaches to the end of the text no item has text. -/
theorem text_eq_empty_of_stop (h : tokenize s = .ok tokens) {before after : List TextItem}
    {item : TextItem} (hitems : itemsOf tokens = before ++ item :: after)
    (hstop : item.span.stop = s.utf8ByteSize) : ∀ other ∈ after, other.text = "" := by
  intro other hother
  have hmem : other ∈ itemsOf tokens := by simp [hitems, hother]
  have hpairs := pairwise_of_tokenize h
  rw [hitems] at hpairs
  have hle : item.span.stop ≤ other.span.start :=
    (List.pairwise_cons.mp (List.pairwise_append.mp hpairs).2.1).1 other hother
  obtain ⟨front, back, hs, hstart⟩ := item_begins h hmem
  have hsize : s.utf8ByteSize = byteLength front + (byteLength other.chars + byteLength back) := by
    rw [← byteLength_toList, hs, byteLength_append, byteLength_append]
  have hzero : byteLength other.chars = 0 := by omega
  rw [other.byteLength_chars] at hzero
  exact String.utf8ByteSize_eq_zero_iff.mp hzero

/-- An item without text has no defect. -/
theorem not_isUnterminated_of_empty (h : tokenize s = .ok tokens) {item : TextItem}
    (hitem : item ∈ itemsOf tokens) (hempty : item.text = "") : item.isUnterminated = false := by
  have hkind : item.kind = .token .endOfInput := (filled_of_tokenize h hitem).mp hempty
  have hunknown := ((sound_of_tokenize h hitem).unknown_iff _ hkind).mpr
  cases hd : item.defect with
  | none => simp [TextItem.isUnterminated, hd]
  | some d => cases hunknown (by simp [hd])

end Texts

/-- Where the defects of the tokens of a text are. -/
structure DefectsPlaced (s : String) (tokens : List Token) : Prop where
  /-- The malformed tokens have a defect, and no others. -/
  of_tokens : ∀ t ∈ tokens, (t.defect.isSome ↔ t.kind = .unknown) ∧
    t.defect ≠ some .unterminatedLongComment
  /-- Of the trivia only comments have a defect, and one only. -/
  of_trivia : ∀ t ∈ tokens, ∀ trivia ∈ t.leadingTrivia, ∀ d, trivia.defect = some d →
    trivia.kind = .comment ∧ d = .unterminatedLongComment
  /-- An item that lacks its closing delimiter is the last one with text, reaches to the end of the
  text, and is the only one of its sort. -/
  ending : ∀ before item after, itemsOf tokens = before ++ item :: after →
    item.isUnterminated = true → item.text ≠ "" ∧ item.span.stop = s.utf8ByteSize ∧
      (∀ other ∈ after, other.text = "") ∧ ∀ other ∈ before ++ after, other.isUnterminated = false

/-- **The places of defects.** In every text the tokens with a defect are the malformed ones, the
trivia with a defect are comments which are not closed, and if a closing delimiter is missing then
at the end of the text, once. -/
theorem defects_placed (s : String) :
    ∃ tokens, tokenize s = .ok tokens ∧ DefectsPlaced s tokens := by
  obtain ⟨tokens, h⟩ := exists_tokenize s
  refine ⟨tokens, h, fun t ht => ?_, fun t ht trivia htrivia d hd => ?_,
    fun before item after hitems hcut => ?_⟩
  · have hitem := item_mem_itemsOf ht
    refine ⟨((sound_of_tokenize h hitem).unknown_iff _ rfl).symm, fun hd => ?_⟩
    exact (defect_of_item h hitem hd).1.token _ rfl rfl
  · exact (defect_of_item h (trivia_mem_itemsOf ht htrivia) hd).1.trivia _ rfl
  · have hitem : item ∈ itemsOf tokens := by simp [hitems]
    have hempty := text_eq_empty_of_stop h hitems (stop_of_isUnterminated h hitem hcut)
    have hfilled : item.text ≠ "" := fun htext => by
      rw [not_isUnterminated_of_empty h hitem htext] at hcut
      cases hcut
    refine ⟨hfilled, stop_of_isUnterminated h hitem hcut, hempty, fun other hother => ?_⟩
    rcases List.mem_append.mp hother with hbefore | hafter
    · -- nothing with text stands behind an unterminated item
      obtain ⟨front, back, rfl⟩ := List.append_of_mem hbefore
      have hmem : other ∈ itemsOf tokens := by simp [hitems]
      have hitems' : itemsOf tokens = front ++ other :: (back ++ item :: after) := by
        rw [hitems, List.append_assoc, List.cons_append]
      cases hother : other.isUnterminated with
      | false => rfl
      | true =>
        refine absurd ?_ hfilled
        exact text_eq_empty_of_stop h hitems' (stop_of_isUnterminated h hmem hother) item (by simp)
    · exact not_isUnterminated_of_empty h (by simp [hitems, hafter]) (hempty other hafter)

end LuaLex
