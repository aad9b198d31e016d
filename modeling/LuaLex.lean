import LuaLex.CharClass
import LuaLex.Span
import LuaLex.Fault
import LuaLex.Source
import LuaLex.Utf8
import LuaLex.Cursor
import LuaLex.Scan
import LuaLex.Scan.Progress
import LuaLex.Text.Unprintable
import LuaLex.Text.Quoted
import LuaLex.Keyword
import LuaLex.Token
import LuaLex.Symbol
import LuaLex.LongBracket
import LuaLex.Lexer.Trivia
import LuaLex.Lexer.Lexeme
import LuaLex.Lexer
import LuaLex.SourceFile
import LuaLex.Diagnostic
import LuaLex.Json
import LuaLex.Listing
import LuaLex.Toml.Reader
import LuaLex.Toml.Item
import LuaLex.Toml.Scalar
import LuaLex.Toml.Quoted
import LuaLex.Toml.Document
import LuaLex.FileSystem
import LuaLex.Failure
import LuaLex.Settings
import LuaLex.Command
import LuaLex.CommandLine
import LuaLex.Program
import LuaLex.Main
import LuaLex.Proofs.Place
import LuaLex.Proofs.Reading
import LuaLex.Proofs.Verdict
import LuaLex.Proofs.OnText
import LuaLex.Proofs.Layout
import LuaLex.Proofs.Lexing
import LuaLex.Proofs.RoundTrip
import LuaLex.Proofs.Lockstep
import LuaLex.Proofs.Utf8Text
import LuaLex.Proofs.ReaderLexing
import LuaLex.Proofs.LineTable
import LuaLex.Proofs.LexerPlaces
import LuaLex.Proofs.Underline
import LuaLex.Proofs.DefectReport
import LuaLex.Proofs.Tiling
import LuaLex.Proofs.ByteOrder
import LuaLex.Proofs.WordSearch
import LuaLex.Proofs.MaximalMunch
import LuaLex.Proofs.Bookkeeping
import LuaLex.Proofs.AnySource
import LuaLex.Proofs.Recovery
import LuaLex.Proofs.Lookahead
import LuaLex.Proofs.Finality
import LuaLex.Proofs.Restart
import LuaLex.Proofs.Iteration
import LuaLex.Proofs.Agreement
import LuaLex.Proofs.Draining
import LuaLex.Proofs.QuotedStrings
import LuaLex.Proofs.LongBrackets
import LuaLex.Proofs.Comments
import LuaLex.Proofs.TriviaPieces
import LuaLex.Proofs.CanonicalTrivia
import LuaLex.Proofs.Spacing
import LuaLex.Proofs.DefectPlaces
import LuaLex.Proofs.LongStrings
import LuaLex.Proofs.ShortStrings
import LuaLex.Proofs.CommentExtent
import LuaLex.Proofs.ReadBack
import LuaLex.Proofs.JsonReader
import LuaLex.Proofs.JsonListing
import LuaLex.Proofs.TextListing
import LuaLex.Proofs.LinePartition
import LuaLex.Proofs.PeekWindow
import LuaLex.Proofs.SafeRendering
import LuaLex.Proofs.CursorInvariant
