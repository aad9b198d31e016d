import LuaLex.Command
import LuaLex.CommandLine
import LuaLex.Settings

/-!
# The program

A whole run as a function: arguments, environment and files in, text and outcome out. Usage is
judged first, then the settings are read, then the command runs. What the command line asks for wins
over the settings.
-/

namespace LuaLex

/-- How a run of the program ends. -/
inductive Conclusion where
  /-- The arguments were wrong. -/
  | misused (e : UsageError)
  /-- A text was asked for, the version or help. -/
  | informed (text : String)
  /-- A command ran, or the settings for it could not be read. -/
  | ran (report : Report)

namespace Conclusion

/-- The exit status of a run. -/
def exitCode : Conclusion → Nat
  | misused _ => 2
  | informed _ => 0
  | ran report => match report.result with | .ok _ => 0 | .error _ => 1

/-- What a run writes to standard output. -/
def out : Conclusion → String
  | misused _ => ""
  | informed text => text
  | ran report => report.out

/-- The failure of a run that used the program rightly. -/
def failure? : Conclusion → Option Failure
  | ran report => match report.result with | .ok _ => none | .error failure => some failure
  | _ => none

/-- What a run writes to the error stream. -/
def errorText : Conclusion → String
  | misused e => "error: " ++ e.message ++ "\n"
  | conclusion => conclusion.failure?.elim "" fun failure => failure.report ++ "\n"

end Conclusion

namespace Program

/-- The name of the program. -/
def name : String := "lunart"

/-- The version of the program. -/
def version : String := "0.1.0"

/-- The text for a request for the version, of the program or of one of its commands. -/
def versionText (command : Option CommandName) : String :=
  name ++ (command.elim "" fun c => "-" ++ c.word) ++ " " ++ version ++ "\n"

/-- The text for a request for help. -/
def helpText : String :=
  "Lossless Lua lexer toolkit\n\n" ++
  "Usage: " ++ name ++ " [OPTIONS] <COMMAND>\n\n" ++
  "Commands:\n" ++
  "  tokens [-F text|json] [-t] <FILE>    List the tokens of a Lua file\n" ++
  "  check [--deny-unknown] <FILE>        Report lexical defects\n" ++
  "  reconstruct <FILE>                   Print the source rebuilt from its tokens\n\n" ++
  "Options:\n" ++
  "  -v, --verbose          Enable verbose output\n" ++
  "  -c, --config <CONFIG>  Path to configuration file\n" ++
  "      --no-color         Disable color output\n" ++
  "  -h, --help             Print help\n" ++
  "  -V, --version          Print version\n"

/-- Runs what a command line requests. -/
def perform (inputs : Inputs) (settings : Settings) (colored : Bool) : Request → Report
  | .tokens file format trivia =>
    Command.tokens inputs file (format.getD settings.format) (trivia || settings.showTrivia)
  | .check file denyUnknown =>
    Command.check inputs file (denyUnknown || settings.denyDefects) colored
  | .reconstruct file => Command.reconstruction inputs file

/-- The settings for a run: from the file the command line names, or from the first of the usual
places. -/
def settingsFor (files : FileSystem) (places : List String) (invocation : Invocation) :
    Except Failure Settings :=
  match invocation.config with
  | some path => Settings.loadFrom files path
  | none => Settings.load files places

/-- The paths that a command line makes the program look at. -/
def pathsOf (places : List String) (invocation : Invocation) : List String :=
  invocation.config.elim places ([·]) ++ [invocation.request.file]

/-- Runs the program. Settings are looked for in `places`; diagnostics are coloured for a terminal
unless the command line says otherwise. -/
def run (args : List String) (env : Environment) (inputs : Inputs) (places : List String)
    (terminal : Bool) : Conclusion :=
  match CommandLine.parse args env with
  | .error (.usage e) => .misused e
  | .error (.version command) => .informed (versionText command)
  | .error .help => .informed helpText
  | .ok invocation =>
    match settingsFor inputs.files places invocation with
    | .error failure => .ran ⟨"", .error failure⟩
    | .ok settings =>
      .ran (perform inputs settings (terminal && !invocation.noColor) invocation.request)

end Program

end LuaLex
