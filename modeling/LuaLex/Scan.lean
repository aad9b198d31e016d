import LuaLex.Cursor

/-!
# Programs on a cursor

Scanners are programs that run on a cursor and may end in a fault. What a failed run has taken stays
taken.
-/

namespace LuaLex

/-- A program on a cursor. -/
abbrev Scan := EStateM Fault Cursor

namespace Scan

/-- Runs an operation of the source. -/
def onSource {α : Type} (m : EStateM Fault Source α) : Scan α := fun cursor =>
  match m cursor.source with
  | .ok a source => .ok a { cursor with source }
  | .error e source => .error e { cursor with source }

/-- The character `i` places ahead, `none` past the end of input. -/
def peek (i : Nat) : Scan (Option Char) := onSource (Source.peek i)

/-- The character under the cursor, `none` at the end of input. -/
def current : Scan (Option Char) := peek 0

/-- Whether the input has ended. -/
def atEnd : Scan Bool := return (← current).isNone

/-- Whether taking `c` moves to the next line: a line feed always does, a carriage return unless a
line feed follows. -/
def breaksLine (c : Char) : Scan Bool :=
  if c = '\n' then return true
  else if c = '\r' then return (← peek 0) != some '\n'
  else return false

/-- Takes the character under the cursor; at the end of input nothing happens. When the character
behind a carriage return cannot be had, the carriage return is taken all the same, but line and
column are left as they were. -/
def advance : Scan (Option Char) := do
  match ← onSource Source.next with
  | none => return none
  | some c =>
    modify (Cursor.push c)
    let breaks ← breaksLine c
    modify (Cursor.move breaks)
    return some c

/-- Takes the character under the cursor if it is `expected`. -/
def eat (expected : Char) : Scan Bool := do
  if (← current) = some expected then
    let _ ← advance
    return true
  else
    return false

/-- Begins a new span here; the text of an unfinished one is dropped. -/
def begin : Scan Unit :=
  modify fun cursor => { cursor with start := cursor.position, text := "" }

/-- Ends the span under construction and begins an empty one here. -/
def finish : Scan (String × Span) :=
  modifyGet fun cursor =>
    ((cursor.text,
      ⟨cursor.start.offset, cursor.position.offset, cursor.start.line, cursor.start.column⟩),
      { cursor with start := cursor.position, text := "" })

end Scan

end LuaLex
