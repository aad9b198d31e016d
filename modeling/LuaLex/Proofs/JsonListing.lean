import Mathlib
import LuaLex.Proofs.Agreement
import LuaLex.Proofs.JsonReader

/-!
# The JSON listing is lossless

A listing in JSON writes one record for each token, and each record on a line of its own. A reader
of JSON that looks fields up by their names finds in each line the token that was written there, so
the whole listing gives the tokens back, and with them the text.

* `Token.ofJson?`, `Token.ofJson?_toJson`: the token of a record.
* `Token.RecordedBy`, `Token.recordedBy_render`: a line in which a token is recorded.
* `tokensOf?`, `Command.Records`: the tokens of a listing.
* `json_listing_lossless`: the listing of every file that is a text.
-/

namespace LuaLex

/-! ## Names -/

/-- The category of a given name. -/
def TokenKind.ofName? (s : String) : Option TokenKind :=
  [keyword, identifier, number, string, operator, punctuation, bracketOpen, bracketClose, unknown,
    endOfInput].find? (·.name == s)

theorem TokenKind.ofName?_name (kind : TokenKind) : ofName? kind.name = some kind := by
  cases kind <;> rfl

/-- The category of trivia of a given name. -/
def TriviaKind.ofName? (s : String) : Option TriviaKind :=
  [whitespace, newline, comment].find? (·.name == s)

theorem TriviaKind.ofName?_name (kind : TriviaKind) : ofName? kind.name = some kind := by
  cases kind <;> rfl

/-- The defect of a given name. -/
def Defect.ofName? (s : String) : Option Defect :=
  [unterminatedString, unterminatedLongString, unterminatedLongComment, invalidLongBracket,
    invalidNumberTerminator, unknownSymbol].find? (·.name == s)

theorem Defect.ofName?_name (defect : Defect) : ofName? defect.name = some defect := by
  cases defect <;> rfl

/-! ## Records -/

namespace Json

/-- The text that a value is. -/
def text? : Json → Option String
  | text s => some s
  | _ => none

/-- The count that a value is. -/
def count? : Json → Option Nat
  | count n => some n
  | _ => none

/-- The items of a value that is a list. -/
def items? : Json → Option (List Json)
  | list items => some items
  | _ => none

/-- The field of a given name, wherever it stands in a record. -/
def field? (name : String) : Json → Option Json
  | record fields => fields.lookup name
  | _ => none

/-- A value has a field of a given name. -/
def HasField (name : String) (value : Json) : Prop := (value.field? name).isSome

end Json

open Json

/-- The span of a record. -/
def Span.ofJson? (value : Json) : Option Span := do
  let start ← (← value.field? "start").count?
  let stop ← (← value.field? "end").count?
  let line ← (← value.field? "line").count?
  let column ← (← value.field? "column").count?
  return ⟨start, stop, line, column⟩

/-- The defect of a record; there is none without the field. -/
def Defect.ofJson? (value : Json) : Option (Option Defect) :=
  match value.field? "defect" with
  | none => some none
  | some defect => (defect.text?.bind ofName?).map some

/-- The piece of trivia of a record. -/
def Trivia.ofJson? (value : Json) : Option Trivia := do
  let kind ← TriviaKind.ofName? (← (← value.field? "kind").text?)
  let text ← (← value.field? "text").text?
  let span ← Span.ofJson? (← value.field? "span")
  let defect ← Defect.ofJson? value
  return ⟨kind, text, span, defect⟩

/-- The token of a record. -/
def Token.ofJson? (value : Json) : Option Token := do
  let kind ← TokenKind.ofName? (← (← value.field? "kind").text?)
  let lexeme ← (← value.field? "lexeme").text?
  let leadingTrivia ← (← (← value.field? "leading_trivia").items?).mapM Trivia.ofJson?
  let span ← Span.ofJson? (← value.field? "span")
  let defect ← Defect.ofJson? value
  return ⟨kind, lexeme, leadingTrivia, span, defect⟩

theorem Span.ofJson?_toJson (span : Span) : ofJson? span.toJson = some span := rfl

section Defects

variable {front : List (String × Json)} (h : front.lookup "defect" = none) (defect : Option Defect)

include h

/-- The field for a defect is found behind fields of other names. -/
theorem Defect.ofJson?_fields : ofJson? (.record (front ++ fields defect)) = some defect := by
  rw [ofJson?, field?, List.lookup_append, h, Option.none_or]
  cases defect with
  | none => rfl
  | some defect =>
    have hname := ofName?_name defect
    simp [fields, text?, hname]

theorem Defect.hasField_fields :
    HasField "defect" (.record (front ++ fields defect)) ↔ defect.isSome := by
  rw [HasField, field?, List.lookup_append, h, Option.none_or]
  cases defect <;> simp [fields]

end Defects

theorem Trivia.ofJson?_toJson (t : Trivia) : ofJson? t.toJson = some t := by
  have hkind : t.toJson.field? "kind" = some (.text t.kind.name) := rfl
  have htext : t.toJson.field? "text" = some (.text t.text) := rfl
  have hspan : t.toJson.field? "span" = some t.span.toJson := rfl
  have hdefect : Defect.ofJson? t.toJson = some t.defect := Defect.ofJson?_fields rfl t.defect
  simp [ofJson?, hkind, htext, hspan, hdefect, text?, TriviaKind.ofName?_name,
    Span.ofJson?_toJson]

theorem Token.ofJson?_toJson (t : Token) : ofJson? t.toJson = some t := by
  have hkind : t.toJson.field? "kind" = some (.text t.kind.name) := rfl
  have hlexeme : t.toJson.field? "lexeme" = some (.text t.lexeme) := rfl
  have htrivia : t.toJson.field? "leading_trivia" =
      some (.list (t.leadingTrivia.map Trivia.toJson)) := rfl
  have hspan : t.toJson.field? "span" = some t.span.toJson := rfl
  have hdefect : Defect.ofJson? t.toJson = some t.defect := Defect.ofJson?_fields rfl t.defect
  have hall := mapM_map_of_forall id Trivia.ofJson?_toJson t.leadingTrivia
  rw [List.map_id] at hall
  simp [ofJson?, hkind, hlexeme, htrivia, hspan, hdefect, text?, items?, hall,
    TokenKind.ofName?_name, Span.ofJson?_toJson]

/-! ## Lines -/

/-- The token that is recorded in a line. -/
def Token.ofLine? (line : String) : Option Token := (Json.read? line).bind ofJson?

theorem Token.ofLine?_render (t : Token) : ofLine? t.toJson.render = some t := by
  rw [ofLine?, read?_render, Option.bind_some, ofJson?_toJson]

/-- A line that holds the record of a token and nothing else. Reading it gives the token back, and a
field for a defect is there exactly when there is a defect. -/
structure Token.RecordedBy (t : Token) (line : String) : Prop where
  one_line : '\n' ∉ line.toList
  reads : Json.read? line = some t.toJson
  recovers : Token.ofLine? line = some t
  defect_iff : t.toJson.HasField "defect" ↔ t.defect.isSome
  trivia_defect_iff : ∀ trivia ∈ t.leadingTrivia,
    trivia.toJson.HasField "defect" ↔ trivia.defect.isSome

theorem Token.recordedBy_render (t : Token) : t.RecordedBy t.toJson.render where
  one_line h := by
    rw [Json.render, String.toList_ofList] at h
    exact absurd (printable_chars t.toJson '\n' h) (by decide)
  reads := read?_render t.toJson
  recovers := t.ofLine?_render
  defect_iff := Defect.hasField_fields rfl t.defect
  trivia_defect_iff trivia _ := Defect.hasField_fields rfl trivia.defect

/-- The tokens of a listing: one for each line. -/
def tokensOf? (out : String) : Option (List Token) := (linesOf out).mapM Token.ofLine?

namespace Command

/-- A report on tokens with one record on each line, from which the tokens are recovered. -/
structure Records (tokens : List Token) (report : Report) : Prop where
  writes : ∃ lines, report.out = String.join (lines.map (· ++ "\n")) ∧
    List.Forall₂ Token.RecordedBy tokens lines
  counts : report.result = .ok tokens.length
  recovers : tokensOf? report.out = some tokens

variable {inputs : Inputs} {path s : String} {ts : List Token}

theorem records_tokens (hopen : inputs.open path = .ok (utf8Bytes s)) (hts : tokenize s = .ok ts)
    (showTrivia : Bool) : Records ts (tokens inputs path .json showTrivia) := by
  have hout : String.join (ts.map (·.listing .json showTrivia)) =
      String.join ((ts.map (·.toJson.render)).map (· ++ "\n")) := by
    rw [List.map_map]
    rfl
  rw [tokens_of_text hopen hts, hout]
  refine ⟨⟨_, rfl, ?_⟩, rfl, ?_⟩
  · rw [List.forall₂_map_right_iff, List.forall₂_same]
    exact fun t _ => t.recordedBy_render
  · rw [tokensOf?, linesOf_join]
    · rw [mapM_map_of_forall id Token.ofLine?_render, List.map_id]
    · intro line hline
      obtain ⟨t, -, rfl⟩ := List.mem_map.mp hline
      exact t.recordedBy_render.one_line

end Command

/-- **The JSON listing is lossless.** The listing of a file that is a text has one line for each
token, and reading the lines gives the tokens back with everything in them. So two files with the
same listing are the same text. -/
theorem json_listing_lossless {inputs : Inputs} {path s : String}
    (hopen : inputs.open path = .ok (utf8Bytes s)) (showTrivia : Bool) :
    (∃ tokens, tokenize s = .ok tokens ∧
      Command.Records tokens (Command.tokens inputs path .json showTrivia)) ∧
    ∀ inputs' path' s' showTrivia', inputs'.open path' = .ok (utf8Bytes s') →
      (Command.tokens inputs' path' .json showTrivia').out =
        (Command.tokens inputs path .json showTrivia).out → s' = s := by
  obtain ⟨ts, hts⟩ := exists_tokenize s
  have hrecords := Command.records_tokens hopen hts showTrivia
  refine ⟨⟨ts, hts, hrecords⟩, fun inputs' path' s' showTrivia' hopen' hout => ?_⟩
  obtain ⟨ts', hts'⟩ := exists_tokenize s'
  have hrecords' := Command.records_tokens hopen' hts' showTrivia'
  have hsame : some ts' = some ts := by rw [← hrecords'.recovers, hout, hrecords.recovers]
  obtain rfl := Option.some.inj hsame
  rw [← reconstruct_of_tokenize hts, ← reconstruct_of_tokenize hts']

/-- A string that a line feed interrupts stands on one line, with its defect. -/
theorem json_listing_lossless_open_string :
    let inputs := Inputs.always (utf8Bytes "'\n")
    inputs.open "main.lua" = .ok (utf8Bytes "'\n") ∧
      ∃ t ending, tokenize "'\n" = .ok [t, ending] ∧ t.defect = some .unterminatedString ∧
        Command.Records [t, ending] (Command.tokens inputs "main.lua" .json false) := by
  intro inputs
  have hopen : inputs.open "main.lua" = .ok (utf8Bytes "'\n") := Inputs.open_always _ _
  refine ⟨hopen, ?_⟩
  obtain ⟨tokens, htokens, hrecords⟩ := (json_listing_lossless hopen false).1
  have hstring : tokenize "'\n" = .ok
      [⟨.unknown, "'\n", [], ⟨0, 2, 1, 1⟩, some .unterminatedString⟩,
        ⟨.endOfInput, "", [], ⟨2, 2, 2, 1⟩, none⟩] := by
    cbv
  obtain rfl := Except.ok.inj (htokens.symm.trans hstring)
  exact ⟨_, _, hstring, rfl, hrecords⟩

end LuaLex
