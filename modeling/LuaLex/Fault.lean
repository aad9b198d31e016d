/-!
# Faults of reading

A source can fail to hand out a character for two reasons: the reader below it failed, or the bytes
it delivered are not UTF-8.
-/

namespace LuaLex

/-- Why the next character could not be had. -/
inductive Fault where
  /-- The reader failed; the text says how. -/
  | unreadable (reason : String)
  /-- The bytes after the first `offset` decoded ones are not UTF-8. -/
  | invalidUtf8 (offset : Nat)
  deriving Repr, DecidableEq

/-- The sentence shown for a fault. -/
def Fault.message : Fault → String
  | .unreadable reason => "failed to read source: " ++ reason
  | .invalidUtf8 offset => "invalid UTF-8 in source at byte " ++ toString offset

end LuaLex
