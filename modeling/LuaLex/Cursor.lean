import LuaLex.Source
import LuaLex.Span

/-!
# The cursor

A cursor walks over a source. It knows its position, where the span under construction began, and
the text taken since then.
-/

namespace LuaLex

/-- A place in the input: bytes before it, and its line and column, both counted from one. -/
structure Position where
  offset : Nat
  line : Nat
  column : Nat
  deriving Repr, DecidableEq

/-- The place where every input begins. -/
def Position.origin : Position := ⟨0, 1, 1⟩

/-- A source with the position reached in it and the span under construction. -/
structure Cursor where
  source : Source
  position : Position
  start : Position
  text : String

namespace Cursor

/-- A cursor at the beginning of a source. -/
def ofSource (source : Source) : Cursor := ⟨source, .origin, .origin, ""⟩

/-- How much is left to read. -/
def size (cursor : Cursor) : Nat := cursor.source.size

/-- Adds a taken character to the text and to the offset. -/
def push (c : Char) (cursor : Cursor) : Cursor :=
  { cursor with
    text := cursor.text.push c
    position := { cursor.position with offset := cursor.position.offset + c.utf8Size } }

/-- Moves to the next line, or one column on. -/
def move (breaksLine : Bool) (cursor : Cursor) : Cursor :=
  { cursor with
    position :=
      if breaksLine then ⟨cursor.position.offset, cursor.position.line + 1, 1⟩
      else { cursor.position with column := cursor.position.column + 1 } }

end Cursor

end LuaLex
