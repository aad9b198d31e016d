import LuaLex.Span
import LuaLex.Text.Quoted

/-!
# Tokens and trivia

The result of lexing. Every character of the input belongs to the lexeme of a token or to a piece of
trivia in front of one, so the input can be put together again (`reconstruct`). Malformed text is
kept in the same way and carries the defect that was found in it.
-/

namespace LuaLex

/-- What is wrong with a token or a comment. -/
inductive Defect where
  | unterminatedString
  | unterminatedLongString
  | unterminatedLongComment
  | invalidLongBracket
  | invalidNumberTerminator
  | unknownSymbol
  deriving Repr, DecidableEq

namespace Defect

/-- The name of a defect in records. -/
def name : Defect → String
  | unterminatedString => "UnterminatedString"
  | unterminatedLongString => "UnterminatedLongString"
  | unterminatedLongComment => "UnterminatedLongComment"
  | invalidLongBracket => "InvalidLongBracket"
  | invalidNumberTerminator => "InvalidNumberTerminator"
  | unknownSymbol => "UnknownSymbol"

/-- The phrase shown for a defect. -/
def message : Defect → String
  | unterminatedString => "unterminated string literal"
  | unterminatedLongString => "unterminated long string literal"
  | unterminatedLongComment => "unterminated long comment"
  | invalidLongBracket => "invalid long string delimiter"
  | invalidNumberTerminator => "malformed number"
  | unknownSymbol => "unexpected symbol"

/-- The defects that say that the input ended too early. -/
def isUnterminated : Defect → Bool
  | unterminatedString | unterminatedLongString | unterminatedLongComment => true
  | _ => false

end Defect

/-- The categories of tokens. -/
inductive TokenKind where
  | keyword
  | identifier
  | number
  | string
  | operator
  | punctuation
  | bracketOpen
  | bracketClose
  /-- Malformed text; its defect says what is wrong. -/
  | unknown
  | endOfInput
  deriving Repr, DecidableEq

/-- The name of a category, the same in listings and in records. -/
def TokenKind.name : TokenKind → String
  | keyword => "Keyword"
  | identifier => "Identifier"
  | number => "Number"
  | string => "String"
  | operator => "Operator"
  | punctuation => "Punctuation"
  | bracketOpen => "BracketOpen"
  | bracketClose => "BracketClose"
  | unknown => "Unknown"
  | endOfInput => "EndOfInput"

/-- The categories of trivia: text that separates tokens and means nothing. -/
inductive TriviaKind where
  | whitespace
  | newline
  | comment
  deriving Repr, DecidableEq

/-- The name of a category of trivia, the same in listings and in records. -/
def TriviaKind.name : TriviaKind → String
  | whitespace => "Whitespace"
  | newline => "Newline"
  | comment => "Comment"

/-- A piece of text between tokens. -/
structure Trivia where
  kind : TriviaKind
  text : String
  span : Span
  defect : Option Defect
  deriving Repr, DecidableEq

/-- A token, with the trivia between it and the token before. -/
structure Token where
  kind : TokenKind
  lexeme : String
  leadingTrivia : List Trivia
  span : Span
  defect : Option Defect
  deriving Repr, DecidableEq

namespace Token

/-- The text of a token with the trivia in front of it. -/
def fullText (token : Token) : String :=
  String.join (token.leadingTrivia.map Trivia.text) ++ token.lexeme

/-- Whether a comment stands in front of a token. -/
def hasComments (token : Token) : Bool :=
  token.leadingTrivia.any fun trivia => trivia.kind == .comment

/-- The token that stands for the end of input. -/
def isEndOfInput (token : Token) : Bool := token.kind == .endOfInput

/-- A token in short: its category and its quoted lexeme. -/
def summary (token : Token) : String :=
  token.kind.name ++ "(" ++ Text.Quoted.quote token.lexeme ++ ")"

/-- The defects in a token and the trivia in front of it, each with its place, in the order of the
text. -/
def defects (token : Token) : List (Defect × Span) :=
  token.leadingTrivia.filterMap (fun trivia => trivia.defect.map (·, trivia.span)) ++
    (token.defect.map (·, token.span)).toList

end Token

/-- The text that a sequence of tokens was lexed from. -/
def reconstruct (tokens : List Token) : String :=
  String.join (tokens.map Token.fullText)

end LuaLex
