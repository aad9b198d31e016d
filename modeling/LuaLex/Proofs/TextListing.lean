import Mathlib
import LuaLex.Proofs.Agreement
import LuaLex.Proofs.ReadBack

/-!
# The text listing with trivia is lossless

A listing for readers that shows the trivia has one line for each item. What stands between the
quotes of a line can be read back: an escape tells which character it stands for, and a quote or a
line feed never stands there for itself. Nothing in front of the opening quote is a quote, so the
text of each line is found, and the texts of all lines are the text that was listed. Which of the
characters without an escape of two characters are written by their code points does not matter: all
that follows is for any choice of them, and the reader does not know it.

* `Text.Quoted.written_escape`: the form of each character.
* `TextItem.line`, `TextItem.textOf?_line`: the line of an item, and its text in it.
* `sourceOf?`, `Command.Shows`: the text of a listing.
* `text_listing_lossless`: the listing of every file that is a text.
-/

namespace LuaLex

/-! ## Text in quotes -/

namespace Text.Quoted

/-- Reads the code point of a character up to the brace behind it. -/
def readCodePoint (cs : List Char) : Option (Char × List Char) :=
  match cs.dropWhile (· != '}') with
  | [] => none
  | _ :: rest => ((hexNumber? (cs.takeWhile (· != '}'))).bind charOf?).map (·, rest)

/-- Reads which character is meant behind a backslash. -/
def readNamed : List Char → Option (Char × List Char)
  | '0' :: rest => some ('\x00', rest)
  | 't' :: rest => some ('\t', rest)
  | 'n' :: rest => some ('\n', rest)
  | 'r' :: rest => some ('\r', rest)
  | '"' :: rest => some ('"', rest)
  | '\\' :: rest => some ('\\', rest)
  | 'u' :: '{' :: rest => readCodePoint rest
  | _ => none

/-- Characters that can stand for themselves. -/
def standsAlone (c : Char) : Bool := c != '\n'

theorem readCodePoint_toDigits (c : Char) (rest : List Char) :
    readCodePoint (Nat.toDigits 16 c.toNat ++ '}' :: rest) = some (c, rest) := by
  have hdigits : ∀ x ∈ Nat.toDigits 16 c.toNat, (x != '}') = true := by
    intro x hx
    rw [bne_iff_ne]
    rintro rfl
    cases hexValue?_of_mem_toDigits hx
  have hbrace : ∀ x, ('}' :: rest).head? = some x → (x != '}') = false := by
    intro x hx
    rw [← Option.some.inj hx]
    rfl
  obtain ⟨htake, hdrop⟩ := Scan.takeWhile_run hdigits hbrace
  rw [readCodePoint, htake, hdrop, hexNumber?_toDigits, Option.bind_some, charOf?_toNat]
  rfl

theorem written_codePoint (c : Char) : Written readNamed standsAlone c (codePoint c) := by
  refine .escaped (w := 'u' :: '{' :: (Nat.toDigits 16 c.toNat ++ ['}'])) fun rest => ?_
  rw [List.cons_append, List.cons_append, List.append_assoc]
  exact readCodePoint_toDigits c rest

section Choice

variable (unprintable : Char → Bool)

/-- **Every character is written in a form that is read back.** -/
theorem written_escape (c : Char) :
    Written readNamed standsAlone c (escape unprintable c) := by
  unfold escape
  repeat' split
  case h_7.isTrue => exact written_codePoint c
  case h_7.isFalse hfeed _ hquote hslash _ => exact .verbatim hquote hslash (bne_iff_ne.mpr hfeed)
  all_goals exact .escaped fun _ => rfl

theorem not_mem_codePoint (c : Char) : '\n' ∉ codePoint c := by
  intro h
  rcases List.mem_append.mp h with h | h
  · rcases List.mem_append.mp h with h | h
    · revert h
      decide
    · cases hexValue?_of_mem_toDigits h
  · cases List.mem_singleton.mp h

theorem not_mem_escape (c : Char) : '\n' ∉ escape unprintable c := by
  unfold escape
  repeat' split
  case h_7.isTrue => exact not_mem_codePoint c
  case h_7.isFalse hfeed _ _ _ _ => exact fun h => hfeed (List.mem_singleton.mp h).symm
  all_goals decide

/-- Reads a text in quotes. -/
def readText (cs : List Char) : Option (String × List Char) := readQuoted readNamed standsAlone cs

theorem toList_quote (s : String) :
    (quote s unprintable).toList = '"' :: (s.toList.flatMap (escape unprintable) ++ ['"']) := by
  rw [quote, String.toList_ofList, List.cons_append]

theorem readText_quote (s : String) (rest : List Char) :
    readText ((quote s unprintable).toList ++ rest) = some (s, rest) := by
  rw [toList_quote, List.cons_append, List.append_assoc]
  exact readQuoted_of_written (written_escape unprintable) s rest

theorem not_mem_quote (s : String) : '\n' ∉ (quote s unprintable).toList := by
  rw [toList_quote]
  intro h
  rcases List.mem_cons.mp h with h | h
  · cases h
  rcases List.mem_append.mp h with h | h
  · obtain ⟨c, -, h⟩ := List.mem_flatMap.mp h
    exact not_mem_escape unprintable c h
  · cases List.mem_singleton.mp h

end Choice

end Text.Quoted

/-! ## Lines -/

/-- The name of what an item is. -/
def ItemKind.name : ItemKind → String
  | trivia kind => kind.name
  | token kind => kind.name

/-- Lines for trivia are indented. -/
def ItemKind.indent : ItemKind → String
  | trivia _ => "  "
  | token _ => ""

namespace TextItem

/-- What stands in front of the quoted text of an item. -/
def front (item : TextItem) : String :=
  item.kind.indent ++ item.span.place ++ " " ++ item.kind.name ++ " "

/-- The line for an item, with these characters written by their code points. -/
def line (unprintable : Char → Bool) (item : TextItem) : String :=
  item.front ++ Text.Quoted.quote item.text unprintable ++ Defect.remark item.defect

/-- The text in a line. -/
def textOf? (line : String) : Option String :=
  (Text.Quoted.readText (line.toList.dropWhile (· != '"'))).map Prod.fst

/-- Characters that neither open a quoted text nor end a line. -/
def isUnmarked (c : Char) : Bool := c != '"' && c != '\n'

theorem all_isUnmarked_toString (n : Nat) : (toString n).toList.all isUnmarked = true := by
  rw [Nat.toString_eq_ofList_toDigits, String.toList_ofList, List.all_eq_true]
  intro c hc
  have hne : ∀ x : Char, x.isDigit = false → (c != x) = true := fun x hx =>
    bne_iff_ne.mpr (ne_of_isDigit (isDigit_toDigits n c hc) hx)
  rw [isUnmarked, hne _ (by decide), hne _ (by decide)]
  rfl

theorem all_isUnmarked_name (kind : ItemKind) : kind.name.toList.all isUnmarked = true := by
  cases kind with
  | trivia kind => cases kind <;> rfl
  | token kind => cases kind <;> rfl

theorem all_isUnmarked_front (item : TextItem) : item.front.toList.all isUnmarked = true := by
  have hindent : item.kind.indent.toList.all isUnmarked = true := by
    cases item.kind with
    | trivia _ => exact (by decide : "  ".toList.all isUnmarked = true)
    | token _ => rfl
  have hspace : " ".toList.all isUnmarked = true := rfl
  have hcolon : ":".toList.all isUnmarked = true := rfl
  simp only [front, Span.place, String.toList_append, List.all_append, hindent, hspace, hcolon,
    all_isUnmarked_toString, all_isUnmarked_name, Bool.and_self]

theorem not_mem_remark (defect : Option Defect) : '\n' ∉ (Defect.remark defect).toList := by
  cases defect with
  | none => decide
  | some defect => cases defect <;> decide

/-- No item takes more than one line. -/
theorem not_mem_line (unprintable : Char → Bool) (item : TextItem) :
    '\n' ∉ (item.line unprintable).toList := by
  rw [line, String.toList_append, String.toList_append]
  intro h
  rcases List.mem_append.mp h with h | h
  · rcases List.mem_append.mp h with h | h
    · cases List.all_eq_true.mp item.all_isUnmarked_front _ h
    · exact Text.Quoted.not_mem_quote unprintable item.text h
  · exact not_mem_remark item.defect h

/-- **The text of an item is found in its line.** -/
theorem textOf?_line (unprintable : Char → Bool) (item : TextItem) :
    textOf? (item.line unprintable) = some item.text := by
  -- so the first quote in the line is the one that opens the text
  have hfront : ∀ c ∈ item.front.toList, (c != '"') = true := by
    intro c hc
    have hunmarked := List.all_eq_true.mp item.all_isUnmarked_front c hc
    exact (Bool.and_eq_true_iff.mp hunmarked).1
  have hquote : ∀ c, ((Text.Quoted.quote item.text unprintable).toList ++
      (Defect.remark item.defect).toList).head? = some c → (c != '"') = false := by
    intro c hc
    rw [Text.Quoted.toList_quote] at hc
    rw [← Option.some.inj hc]
    rfl
  rw [textOf?, line, String.toList_append, String.toList_append, List.append_assoc,
    (Scan.takeWhile_run hfront hquote).2, Text.Quoted.readText_quote]
  rfl

end TextItem

section Choice

variable (unprintable : Char → Bool)

theorem Trivia.line_eq (t : Trivia) :
    t.line unprintable = t.item.line unprintable ++ "\n" := by
  simp only [Trivia.line, listingLine, TextItem.line, TextItem.front, Trivia.item, ItemKind.indent,
    ItemKind.name, String.append_assoc]

theorem Token.line_eq (t : Token) :
    t.line unprintable = t.item.line unprintable ++ "\n" := by
  simp only [Token.line, listingLine, TextItem.line, TextItem.front, Token.item, ItemKind.indent,
    ItemKind.name, String.append_assoc, String.empty_append]

/-- The lines for a token are those of its items. -/
theorem Token.listing_text (t : Token) :
    t.listing .text true unprintable =
      String.join ((t.items.map (TextItem.line unprintable)).map (· ++ "\n")) := by
  have hlines : t.leadingTrivia.map (Trivia.line unprintable) =
      ((t.leadingTrivia.map Trivia.item).map (TextItem.line unprintable)).map (· ++ "\n") := by
    rw [List.map_map, List.map_map]
    exact List.map_congr_left fun trivia _ => trivia.line_eq unprintable
  rw [Token.listing, Token.items, List.map_append, List.map_append, String.join_append, ← hlines,
    t.line_eq]
  simp

end Choice

/-- The text of a listing: what stands in its lines, one behind the other. -/
def sourceOf? (out : String) : Option String :=
  ((linesOf out).mapM TextItem.textOf?).map String.join

/-! ## The listing -/

/-- A line for an item, with its text in it. -/
structure TextItem.ShownBy (item : TextItem) (line : String) : Prop where
  one_line : '\n' ∉ line.toList
  recovers : textOf? line = some item.text

namespace Command

/-- A report on the text `s` with one line for each item of its tokens, from which the text is
recovered. -/
structure Shows (s : String) (tokens : List Token) (report : Report) : Prop where
  writes : ∃ lines, report.out = String.join (lines.map (· ++ "\n")) ∧
    List.Forall₂ TextItem.ShownBy (itemsOf tokens) lines
  counts : report.result = .ok tokens.length
  recovers : sourceOf? report.out = some s

variable {inputs : Inputs} {path s : String} {ts : List Token}

theorem shows_tokens (unprintable : Char → Bool) (hopen : inputs.open path = .ok (utf8Bytes s))
    (hts : tokenize s = .ok ts) : Shows s ts (tokens inputs path .text true unprintable) := by
  have hout : String.join (ts.map (·.listing .text true unprintable)) =
      String.join (((itemsOf ts).map (TextItem.line unprintable)).map (· ++ "\n")) := by
    rw [← String.toList_inj]
    simp only [Token.listing_text, itemsOf, String.toList_join, List.flatMap_map, List.map_flatMap,
      List.flatMap_assoc]
  rw [tokens_of_text hopen hts, hout]
  refine ⟨⟨_, rfl, ?_⟩, rfl, ?_⟩
  · rw [List.forall₂_map_right_iff, List.forall₂_same]
    exact fun item _ => ⟨item.not_mem_line unprintable, item.textOf?_line unprintable⟩
  · rw [sourceOf?, linesOf_join]
    · rw [mapM_map_of_forall TextItem.text (TextItem.textOf?_line unprintable), Option.map_some,
        ← reconstruct_of_tokenize hts]
      congr 1
      rw [← String.toList_inj, toList_reconstruct, ← flatMap_chars_itemsOf, String.toList_join,
        List.flatMap_map]
      rfl
    · intro line hline
      obtain ⟨item, -, rfl⟩ := List.mem_map.mp hline
      exact item.not_mem_line unprintable

end Command

/-- **The text listing with trivia is lossless**, whichever characters are written by their code
points. The listing of a file that is a text has one line for each piece of trivia and for each
token, and the text is recovered from the lines. So two files with the same listing are the same
text. -/
theorem text_listing_lossless (unprintable : Char → Bool) {inputs : Inputs} {path s : String}
    (hopen : inputs.open path = .ok (utf8Bytes s)) :
    (∃ tokens, tokenize s = .ok tokens ∧
      Command.Shows s tokens (Command.tokens inputs path .text true unprintable)) ∧
    ∀ inputs' path' s', inputs'.open path' = .ok (utf8Bytes s') →
      (Command.tokens inputs' path' .text true unprintable).out =
        (Command.tokens inputs path .text true unprintable).out →
      s' = s := by
  obtain ⟨ts, hts⟩ := exists_tokenize s
  have hshows := Command.shows_tokens unprintable hopen hts
  refine ⟨⟨ts, hts, hshows⟩, fun inputs' path' s' hopen' hout => ?_⟩
  obtain ⟨ts', hts'⟩ := exists_tokenize s'
  have hshows' := Command.shows_tokens unprintable hopen' hts'
  have hsame : some s' = some s := by rw [← hshows'.recovers, hout, hshows.recovers]
  exact Option.some.inj hsame

/-- A string with a quote and a line feed in it stands on one line. -/
theorem text_listing_lossless_string :
    let text := "'\"\n'"
    let inputs := Inputs.always (utf8Bytes text)
    inputs.open "main.lua" = .ok (utf8Bytes text) ∧
      ∃ t ending, tokenize text = .ok [t, ending] ∧ t.kind = .string ∧
        Command.Shows text [t, ending] (Command.tokens inputs "main.lua" .text true) := by
  intro text inputs
  have hopen : inputs.open "main.lua" = .ok (utf8Bytes text) := Inputs.open_always _ _
  refine ⟨hopen, ?_⟩
  obtain ⟨tokens, htokens, hshows⟩ :=
    (text_listing_lossless Text.Unprintable.isUnprintable hopen).1
  have hstring : tokenize "'\"\n'" = .ok
      [⟨.string, "'\"\n'", [], ⟨0, 4, 1, 1⟩, none⟩, ⟨.endOfInput, "", [], ⟨4, 4, 2, 2⟩, none⟩] := by
    cbv
  obtain rfl := Except.ok.inj (htokens.symm.trans hstring)
  exact ⟨_, _, hstring, rfl, hshows⟩

end LuaLex
