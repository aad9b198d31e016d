import LuaLex.SourceFile

/-!
# Diagnostics

Messages about a place in a file. A rendered diagnostic quotes the line it is about and underlines
the text it means. The underline has at least one caret, stays on the quoted line, and covers the
first line of the text only.
-/

namespace LuaLex

/-- How severe a diagnostic is. -/
inductive Level where
  | error
  | warning
  | note
  deriving Repr, DecidableEq

namespace Level

/-- The name of a level, the same in messages and in records. -/
def name : Level → String
  | error => "error"
  | warning => "warning"
  | note => "note"

/-- The place of a level in the order by severity. -/
def rank : Level → Nat
  | error => 0
  | warning => 1
  | note => 2

/-- Levels in the order by severity, the most severe first. -/
def sort (levels : List Level) : List Level :=
  levels.mergeSort fun a b => a.rank ≤ b.rank

/-- The terminal sequence that switches to the colour of a level. -/
def color : Level → String
  | error => "\x1b[31m"
  | warning => "\x1b[33m"
  | note => "\x1b[36m"

/-- The terminal sequence that switches back. -/
def colorReset : String := "\x1b[0m"

/-- The name of a level as it is shown, in its colour if wanted. -/
def label (level : Level) (colored : Bool) : String :=
  if colored then level.color ++ level.name ++ colorReset else level.name

end Level

/-- A message about a place in a file. -/
structure Diagnostic where
  level : Level
  message : String
  span : Span
  notes : List String
  deriving Repr, DecidableEq

namespace Diagnostic

/-- The first line of a text. Only line feeds end it, with a carriage return in front of them. -/
def firstLine (cs : List Char) : List Char :=
  let line := cs.takeWhile (· != '\n')
  if line.length < cs.length ∧ line.getLast? = some '\r' then line.dropLast else line

/-- The column the underline begins at. -/
def caretColumn (d : Diagnostic) : Nat := max d.span.column 1

/-- How many carets fit below a line from the first one on; there is always room for one. -/
def caretRoom (d : Diagnostic) (line : String) : Nat :=
  max (line.length - (d.caretColumn - 1)) 1

/-- How many carets the covered text asks for; one if the file has no such text. -/
def caretWish (d : Diagnostic) (file : SourceFile) : Nat :=
  match file.slice d.span with
  | .ok text => (firstLine text.toList).length
  | .error _ => 1

/-- The number of carets below a line. -/
def caretCount (d : Diagnostic) (file : SourceFile) (line : String) : Nat :=
  max 1 (min (d.caretWish file) (d.caretRoom line))

/-- A text of one character repeated. -/
def repeated (n : Nat) (c : Char) : String := String.ofList (List.replicate n c)

/-- The first line of a rendering. -/
def header (d : Diagnostic) (file : SourceFile) (colored : Bool) : String :=
  file.name ++ ":" ++ d.span.place ++ ": " ++ d.level.label colored ++ ": " ++ d.message

/-- The quoted line behind its number, and the underline below it. -/
def quotation (d : Diagnostic) (file : SourceFile) (line : String) : String :=
  let gutter := toString d.span.line
  "\n" ++ gutter ++ " | " ++ line ++
    "\n" ++ repeated gutter.length ' ' ++ " | " ++ repeated (d.caretColumn - 1) ' ' ++
      repeated (d.caretCount file line) '^'

/-- A diagnostic as it is shown: the header, the quoted line if the file has it, and the notes, each
on a line of its own. -/
def render (d : Diagnostic) (file : SourceFile) (colored : Bool) : String :=
  let quoted :=
    match file.lineAt d.span.line with
    | .ok line => d.quotation file line
    | .error _ => ""
  d.header file colored ++ quoted ++ String.join (d.notes.map fun note => "\n  = note: " ++ note)

end Diagnostic

/-- Diagnostics in the order in which they were reported. -/
structure DiagnosticLog where
  entries : Array Diagnostic := #[]

namespace DiagnosticLog

/-- Reports a diagnostic. -/
def report (log : DiagnosticLog) (d : Diagnostic) : DiagnosticLog :=
  ⟨log.entries.push d⟩

/-- Whether nothing was reported. -/
def isEmpty (log : DiagnosticLog) : Bool := log.entries.isEmpty

/-- Whether an error was reported. -/
def hasErrors (log : DiagnosticLog) : Bool := log.entries.any (·.level == .error)

/-- The number of diagnostics of a level. -/
def count (log : DiagnosticLog) (level : Level) : Nat := log.entries.countP (·.level == level)

end DiagnosticLog

end LuaLex
