import LuaLex.Fault
import LuaLex.Text.Quoted

/-!
# Failures of a run

Why a run of the program ended without success, the sentence shown for it, and the line it leaves on
the error stream.
-/

namespace LuaLex

/-- Why a run failed. -/
inductive Failure where
  /-- The settings file that was asked for is not there. -/
  | settingsNotFound (path : String)
  /-- The settings file holds no valid settings. -/
  | settingsMalformed (reason : String)
  | inputNotFound (path : String)
  | inputNotFile (path : String)
  /-- Defects were found that are not allowed. -/
  | defectsDenied (count : Nat) (name : String)
  /-- The text put together from the tokens is not the input. -/
  | notReconstructed (name : String)
  /-- A file that has to be text is not valid UTF-8. -/
  | notText
  /-- A file that has to be read is a directory. -/
  | isDirectory
  /-- The input could not be lexed to its end. -/
  | notLexed (fault : Fault)
  deriving Repr, DecidableEq

namespace Failure

/-- The families of failures. -/
inductive Family where
  | config
  | fileOperation
  | validation
  | io
  | lex
  deriving Repr, DecidableEq

/-- The name of a family in reports. -/
def Family.name : Family → String
  | config => "Config"
  | fileOperation => "FileOperation"
  | validation => "Validation"
  | io => "Io"
  | lex => "Lex"

/-- What a sentence on a failure of a family begins with. -/
def Family.heading : Family → String
  | config => "Configuration error"
  | fileOperation => "File operation failed"
  | validation => "Validation error"
  | io => "IO error"
  | lex => "Lex error"

/-- The family of a failure. -/
def family : Failure → Family
  | settingsNotFound _ | settingsMalformed _ => .config
  | inputNotFound _ | inputNotFile _ => .fileOperation
  | defectsDenied .. | notReconstructed _ => .validation
  | notText | isDirectory => .io
  | notLexed _ => .lex

/-- What went wrong, without the family. -/
def detail : Failure → String
  | settingsNotFound path => "Configuration file not found: " ++ path
  | settingsMalformed reason => "Failed to parse configuration: " ++ reason
  | inputNotFound path => "Input path does not exist: " ++ path
  | inputNotFile path => "Input path is not a file: " ++ path
  | defectsDenied count name => toString count ++ " lexical defect(s) found in " ++ name
  | notReconstructed name => "Reconstructed source differs from input: " ++ name
  | notText => "stream did not contain valid UTF-8"
  | isDirectory => "Is a directory (os error 21)"
  | notLexed fault => fault.message

/-- The sentence shown for a failure. -/
def message (failure : Failure) : String :=
  failure.family.heading ++ ": " ++ failure.detail

/-- The inside of a report: the detail in quotes, or the fields of a failure below the program. -/
def payload : Failure → String
  | notText =>
    "Error \x7b kind: InvalidData, message: " ++ Text.Quoted.quote notText.detail ++ " \x7d"
  | isDirectory =>
    "Os \x7b code: 21, kind: IsADirectory, message: " ++ Text.Quoted.quote "Is a directory" ++
      " \x7d"
  | notLexed (.invalidUtf8 offset) => "InvalidUtf8 \x7b offset: " ++ toString offset ++ " \x7d"
  | notLexed (.unreadable reason) =>
    "Io(Custom \x7b kind: Other, error: " ++ Text.Quoted.quote reason ++ " \x7d)"
  | failure => Text.Quoted.quote failure.detail

/-- The line on the error stream for a run that failed. -/
def report (failure : Failure) : String :=
  "Error: " ++ failure.family.name ++ "(" ++ failure.payload ++ ")"

end Failure

end LuaLex
