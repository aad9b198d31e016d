import LuaLex.Program

/-!
# The executable

Gathers what a run depends on, and carries out what `Program.run` concludes.
-/

namespace LuaLex.Main

/-- Looks at a path. Where a part of it is no directory, it leads nowhere. -/
def lookAt (path : String) : IO PathEntry := do
  match ← (IO.FS.readBinFile path).toBaseIO with
  | .ok bytes => return .file bytes.toList
  | .error (.noFileOrDirectory ..) => return .missing
  | .error (.inappropriateType (some _) ..) => return .missing
  | .error (.inappropriateType none ..) => return .directory
  | .error e => throw e

/-- Reads a stream to its end. -/
partial def readAll (stream : IO.FS.Stream) (found : ByteArray) : IO ByteArray := do
  let chunk ← stream.read 65536
  if chunk.isEmpty then return found else readAll stream (found ++ chunk)

/-- The directory for settings: the one the environment names by a path from the root, or the usual
one below the home directory. -/
def configHome (named home : Option String) : Option String :=
  match named with
  | some dir => if dir.startsWith "/" then some dir else home.map (· ++ "/.config")
  | none => home.map (· ++ "/.config")

/-- The paths a run looks at, with what they lead to. -/
def gather (places : List String) : Except CommandLineEnd Invocation → IO Inputs
  | .error _ => return ⟨fun _ => .missing, []⟩
  | .ok invocation => do
    let found ← (Program.pathsOf places invocation).mapM fun path => return (path, ← lookAt path)
    let standardInput ←
      if isStandardInput invocation.request.file then readAll (← IO.getStdin) .empty
      else pure .empty
    return ⟨fun path => (found.lookup path).getD .missing, standardInput.toList⟩

end LuaLex.Main

open LuaLex in
/-- Runs the program on the arguments, the environment and the files of the process. -/
def main (args : List String) : IO UInt32 := do
  let env : Environment := {
    verbose := ← IO.getEnv "LUNART_VERBOSE"
    config := ← IO.getEnv "LUNART_CONFIG"
    noColor := ← IO.getEnv "LUNART_NO_COLOR" }
  let home ← IO.getEnv "HOME"
  let places := Settings.places home (Main.configHome (← IO.getEnv "XDG_CONFIG_HOME") home)
  let inputs ← Main.gather places (CommandLine.parse args env)
  let stdout ← IO.getStdout
  let conclusion := Program.run args env inputs places (← stdout.isTty)
  stdout.putStr conclusion.out
  stdout.flush
  (← IO.getStderr).putStr conclusion.errorText
  return conclusion.exitCode.toUInt32
