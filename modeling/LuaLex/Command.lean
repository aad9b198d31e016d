import LuaLex.Diagnostic
import LuaLex.Failure
import LuaLex.FileSystem
import LuaLex.Lexer
import LuaLex.Listing

/-!
# Commands

The three things the program does with a file: list its tokens, report its defects, and put it
together again from its tokens. A command writes text and ends with a count or a failure; what was
written before a failure stays written.
-/

namespace LuaLex

/-- What a command has written, and how it ended. -/
structure Report where
  out : String
  result : Except Failure Nat

/-- What a command can read from. -/
structure Inputs where
  files : FileSystem
  standardInput : List UInt8

/-- The bytes of the input that a path names. -/
def Inputs.open (inputs : Inputs) (path : String) : Except Failure (List UInt8) :=
  if isStandardInput path then .ok inputs.standardInput
  else
    match inputs.files path with
    | .missing => .error (.inputNotFound path)
    | .directory => .error (.inputNotFile path)
    | .file bytes => .ok bytes

namespace Command

/-! ## Listing tokens -/

/-- Lists tokens as they come, behind the text in `out` and the `count` tokens listed before. A
fault ends the listing. -/
def listOnto (format : ListingFormat) (showTrivia : Bool) (unprintable : Char → Bool)
    (out : String) (count : Nat) : List Outcome → Report
  | [] => ⟨out, .ok count⟩
  | .ok token :: rest =>
    listOnto format showTrivia unprintable
      (out ++ token.listing format showTrivia unprintable) (count + 1) rest
  | .error fault :: _ => ⟨out, .error (.notLexed fault)⟩

/-- Lists the tokens of a file; the result is their number. Where nothing else is said, characters
without a glyph are the ones of the table. -/
def tokens (inputs : Inputs) (path : String) (format : ListingFormat) (showTrivia : Bool)
    (unprintable : Char → Bool := Text.Unprintable.isUnprintable) : Report :=
  match inputs.open path with
  | .error failure => ⟨"", .error failure⟩
  | .ok bytes =>
    listOnto format showTrivia unprintable "" 0 (Lexer.ofScript (.ofBytes bytes)).drain.1

/-! ## Reporting defects -/

/-- The hints given with a defect. -/
def hints (defect : Defect) : List String :=
  if defect.isUnterminated then ["input ended before the closing delimiter"]
  else if defect = .invalidLongBracket then ["long brackets are written `[[`, `[=[`, `[==[`, ..."]
  else []

/-- The diagnostic for a defect. -/
def diagnosticOf (level : Level) (defect : Defect) (span : Span) : Diagnostic :=
  ⟨level, defect.message, span, hints defect⟩

/-- The diagnostics for all defects of a text, in its order. -/
def diagnose (level : Level) (tokens : List Token) : DiagnosticLog :=
  (tokens.flatMap Token.defects).foldl
    (fun log (defect, span) => log.report (diagnosticOf level defect span)) {}

/-- The last line of a report on defects. -/
def checkSummary (name : String) (tokens defects : Nat) : String :=
  name ++ ": " ++ toString tokens ++ " token(s), " ++ toString defects ++ " defect(s)\n"

/-- Reports the defects of a file; the result is their number. If they are denied, they are errors,
and any of them makes the command fail once all are reported. -/
def check (inputs : Inputs) (path : String) (deny colored : Bool) : Report :=
  match inputs.open path with
  | .error failure => ⟨"", .error failure⟩
  | .ok bytes =>
    match tokenizeScript (.ofBytes bytes) with
    | .error fault => ⟨"", .error (.notLexed fault)⟩
    | .ok tokens =>
      let name := displayName path
      let file := SourceFile.ofText name (reconstruct tokens)
      let log := diagnose (if deny then .error else .warning) tokens
      let rendered := log.entries.toList.map fun d => d.render file colored ++ "\n"
      let out := String.join rendered ++ checkSummary name tokens.length log.entries.size
      if log.hasErrors then ⟨out, .error (.defectsDenied log.entries.size name)⟩
      else ⟨out, .ok log.entries.size⟩

/-! ## Reconstruction -/

/-- Writes a file put together again from its tokens, and fails if that is not the file; the result
is the number of tokens. -/
def reconstruction (inputs : Inputs) (path : String) : Report :=
  match inputs.open path with
  | .error failure => ⟨"", .error failure⟩
  | .ok bytes =>
    match String.fromUTF8? bytes.toByteArray with
    | none => ⟨"", .error .notText⟩
    | some text =>
      match tokenize text with
      | .error fault => ⟨"", .error (.notLexed fault)⟩
      | .ok tokens =>
        let rebuilt := reconstruct tokens
        if rebuilt = text then ⟨rebuilt, .ok tokens.length⟩
        else ⟨rebuilt, .error (.notReconstructed (displayName path))⟩

end Command

end LuaLex
