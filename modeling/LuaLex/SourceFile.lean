import LuaLex.CharClass
import LuaLex.Span
import LuaLex.Utf8

/-!
# Source files and their lines

A named text with access by line and by span. A line ends at a line feed and at a carriage return
that no line feed follows; the text behind the last line break is a line too, even if it is empty.
The table of lines is found in the bytes of the text, and lines are cut out at its offsets.
-/

namespace LuaLex

/-! ## Cutting text by byte offsets -/

/-- What is left of a text without its first `n` bytes; `none` if the text is shorter or a character
reaches across the cut. -/
def dropBytes? : List Char → Nat → Option (List Char)
  | cs, 0 => some cs
  | [], _ + 1 => none
  | c :: cs, n + 1 => if c.utf8Size ≤ n + 1 then dropBytes? cs (n + 1 - c.utf8Size) else none

/-- The first `n` bytes of a text; `none` if the text is shorter or a character reaches across the
cut. -/
def takeBytes? : List Char → Nat → Option (List Char)
  | _, 0 => some []
  | [], _ + 1 => none
  | c :: cs, n + 1 =>
    if c.utf8Size ≤ n + 1 then (takeBytes? cs (n + 1 - c.utf8Size)).map (c :: ·) else none

/-- The bytes of a text from `start` up to but not including `stop`. -/
def sliceBytes? (cs : List Char) (start stop : Nat) : Option (List Char) :=
  if start ≤ stop then (dropBytes? cs start).bind (takeBytes? · (stop - start)) else none

/-! ## Lines -/

/-- The offsets behind the line breaks in bytes of which the first one stands at `offset`. -/
def lineStartsFrom (offset : Nat) : List UInt8 → List Nat
  | [] => []
  | byte :: bytes =>
    if byte = 0x0a ∨ (byte = 0x0d ∧ bytes.head? ≠ some 0x0a) then
      (offset + 1) :: lineStartsFrom (offset + 1) bytes
    else lineStartsFrom (offset + 1) bytes

/-- The offsets at which the lines of a text with these bytes begin. -/
def lineStartsOf (bytes : List UInt8) : List Nat := 0 :: lineStartsFrom 0 bytes

/-- A text without the line break characters at its end. -/
def trimLineEnd (cs : List Char) : List Char :=
  (cs.reverse.dropWhile CharClass.isLineEnd).reverse

/-! ## Files -/

/-- A text with the name it is known by. Its characters and the table of its lines are kept with
it. -/
structure SourceFile where
  name : String
  content : String
  chars : List Char := content.toList
  lineStarts : Array Nat := (lineStartsOf (utf8Bytes content)).toArray
  chars_eq : chars = content.toList := by rfl
  lineStarts_eq : lineStarts = (lineStartsOf (utf8Bytes content)).toArray := by rfl

/-- Why a part of a file could not be had. -/
inductive SourceFile.Error where
  /-- There is no such line. -/
  | invalidLineNumber (line lines : Nat)
  /-- The span is reversed, ends behind the file or cuts through a character. -/
  | spanOutOfBounds (size start stop : Nat)
  deriving Repr, DecidableEq

/-- The sentence shown for a failed access. -/
def SourceFile.Error.message : SourceFile.Error → String
  | .invalidLineNumber line lines =>
    "Invalid line number: " ++ toString line ++ " (file has " ++ toString lines ++ " lines)"
  | .spanOutOfBounds size start stop =>
    "Span out of bounds: file has " ++ toString size ++ " bytes, span is " ++ toString start ++
      ".." ++ toString stop

namespace SourceFile

/-- A file with its characters and its lines. -/
def ofText (name content : String) : SourceFile := { name, content }

/-- The part of a file from byte `start` up to byte `stop`. -/
def cut (file : SourceFile) (start stop : Nat) : Except Error (List Char) :=
  match sliceBytes? file.chars start stop with
  | some cs => .ok cs
  | none => .error (.spanOutOfBounds file.content.utf8ByteSize start stop)

/-- The text of a line, counted from one, without its line break. -/
def lineAt (file : SourceFile) (line : Nat) : Except Error String :=
  match line with
  | 0 => .error (.invalidLineNumber 0 file.lineStarts.size)
  | n + 1 =>
    match file.lineStarts[n]? with
    | none => .error (.invalidLineNumber (n + 1) file.lineStarts.size)
    | some start =>
      (file.cut start (file.lineStarts[n + 1]?.getD file.content.utf8ByteSize)).map
        fun cs => String.ofList (trimLineEnd cs)

/-- The text covered by a span. -/
def slice (file : SourceFile) (span : Span) : Except Error String :=
  (file.cut span.start span.stop).map String.ofList

end SourceFile

end LuaLex
