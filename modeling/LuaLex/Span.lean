/-!
# Spans

A span says where a piece of text stands: from which byte to which byte, and the line and column of
its first character. Lines and columns count from one; a column counts characters.
-/

namespace LuaLex

/-- The place of a piece of text: its bytes are those from `start` up to but not including
`stop`. -/
structure Span where
  start : Nat
  stop : Nat
  line : Nat
  column : Nat
  deriving Repr, DecidableEq, Inhabited

namespace Span

/-- The span that stands for no place at all. -/
def dummy : Span := ⟨0, 0, 0, 0⟩

/-- The number of bytes covered. -/
def length (s : Span) : Nat := s.stop - s.start

/-- A span is empty when it covers no byte. -/
def isEmpty (s : Span) : Bool := s.start == s.stop

/-- A span is shown as the place of its first character, `line:column`. -/
def place (s : Span) : String :=
  toString s.line ++ ":" ++ toString s.column

theorem length_eq_zero_of_isEmpty {s : Span} (h : s.isEmpty = true) : s.length = 0 := by
  simp_all [isEmpty, length]

end Span

end LuaLex
