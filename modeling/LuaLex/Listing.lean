import LuaLex.Json
import LuaLex.Token

/-!
# Listings of tokens

Two formats that show one token after the other: lines for readers, and one JSON record per line.
-/

namespace LuaLex

/-- The formats of a listing. -/
inductive ListingFormat where
  | text
  | json
  deriving Repr, DecidableEq

namespace ListingFormat

/-- The name of a format in settings and on the command line. -/
def name : ListingFormat → String
  | text => "text"
  | json => "json"

/-- The format of a given name. -/
def ofName? (s : String) : Option ListingFormat :=
  [text, json].find? (·.name == s)

end ListingFormat

/-! ## Records -/

/-- A span as a record. -/
def Span.toJson (span : Span) : Json :=
  .record [("start", .count span.start), ("end", .count span.stop), ("line", .count span.line),
    ("column", .count span.column)]

/-- The field for a defect; there is none without a defect. -/
def Defect.fields : Option Defect → List (String × Json)
  | some defect => [("defect", .text defect.name)]
  | none => []

/-- A piece of trivia as a record. -/
def Trivia.toJson (trivia : Trivia) : Json :=
  .record ([("kind", .text trivia.kind.name), ("text", .text trivia.text),
    ("span", trivia.span.toJson)] ++ Defect.fields trivia.defect)

/-- A token as a record. -/
def Token.toJson (token : Token) : Json :=
  .record ([("kind", .text token.kind.name), ("lexeme", .text token.lexeme),
    ("leading_trivia", .list (token.leadingTrivia.map Trivia.toJson)),
    ("span", token.span.toJson)] ++ Defect.fields token.defect)

/-! ## Lines -/

/-- The remark on a defect at the end of a line. -/
def Defect.remark : Option Defect → String
  | some defect => " (" ++ defect.message ++ ")"
  | none => ""

/-- One line for a piece of text: its place, its category, the quoted text and the defect. -/
def listingLine (unprintable : Char → Bool) (span : Span) (kind text : String)
    (defect : Option Defect) : String :=
  span.place ++ " " ++ kind ++ " " ++ Text.Quoted.quote text unprintable ++
    Defect.remark defect ++ "\n"

/-- The line for a piece of trivia, indented below the token before it. -/
def Trivia.line (unprintable : Char → Bool) (trivia : Trivia) : String :=
  "  " ++ listingLine unprintable trivia.span trivia.kind.name trivia.text trivia.defect

/-- The line for a token. -/
def Token.line (unprintable : Char → Bool) (token : Token) : String :=
  listingLine unprintable token.span token.kind.name token.lexeme token.defect

/-- What a listing shows for a token. Records always hold the trivia, lines show it on demand. In
lines the characters that are `unprintable` are written by their code points. -/
def Token.listing (token : Token) (format : ListingFormat) (showTrivia : Bool)
    (unprintable : Char → Bool := Text.Unprintable.isUnprintable) : String :=
  match format with
  | .text =>
    (if showTrivia then String.join (token.leadingTrivia.map (Trivia.line unprintable)) else "") ++
      Token.line unprintable token
  | .json => token.toJson.render ++ "\n"

end LuaLex
