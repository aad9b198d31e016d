import LuaLex.Toml.Quoted

/-!
# TOML documents

Keys, values and statements, and the tree a whole document stands for.
-/

namespace LuaLex.Toml

open Reader

/-! ## Keys -/

/-- The characters of a key without quotes. -/
def isBareKeyChar (c : Char) : Bool := c.isAlphanum || c == '_' || c == '-'

/-- Reads one part of a key. -/
def readKeyPart : Reader String := do
  if ← takeIf ['"'] then readBasic
  else if ← takeIf ['\''] then readLiteral
  else
    let bare ← takeWhile isBareKeyChar
    if bare.isEmpty then fail else return String.ofList bare

/-- Nesting and keys stay below this depth. -/
def depthLimit : Nat := 80

/-- Reads a key of one part or more, with blanks around each; the last part is apart. -/
def readKey : Reader (List String × String) := do
  blanks
  let first ← readKeyPart
  blanks
  let others ← repeated do
    if ← takeIf ['.'] then
      blanks
      let part ← readKeyPart
      blanks
      return some part
    else return none
  let parts := first :: others
  if depthLimit ≤ parts.length then refuse .tooDeep
  else return (parts.dropLast, others.getLastD first)

/-! ## Values -/

/-- Reads the rest of an array behind its opening bracket. -/
def readArray (element : Reader Item) : Reader Item := do
  let items ← repeated do
    filler
    if (← peek) = some ']' then return none
    else
      let item ← element
      filler
      unless ← takeIf [','] do
        unless (← peek) = some ']' do fail
      return some item
  filler
  expect [']']
  return .array items

/-- Reads an entry of a table between braces. -/
def readInlineEntry (element : Reader Item) : Reader ((List String × String) × Item) := do
  let key ← readKey
  expect ['=']
  blanks
  let item ← element
  blanks
  return (key, item)

/-- Reads the rest of a table behind its opening brace. -/
def readInlineTable (element : Reader Item) : Reader Item := do
  blanks
  if ← takeIf ['\x7d'] then return .table .braces []
  else
    let first ← readInlineEntry element
    let others ← repeated do
      if ← takeIf [','] then return some (← readInlineEntry element) else return none
    expect ['\x7d']
    let entries := (first :: others).foldlM (fun entries ((path, key), item) =>
      Entries.addDotted .dottedInBraces key item path entries) []
    match entries with
    | .ok entries => return .table .braces entries
    | .error e => refuse e

/-- Reads a value, given how the rest of an array and of a table between braces are read. -/
def readValueWith (array table : Reader Item) : Reader Item := do
  match ← readString with
  | some s => return .string s
  | none =>
    if ← takeIf ['['] then array
    else if ← takeIf ['\x7b'] then table
    else readWord

/-- Reads a value that holds at most `depth` values inside each other. -/
def readValue : Nat → Reader Item
  | 0 => readValueWith (refuse .tooDeep) (refuse .tooDeep)
  | depth + 1 => readValueWith (readArray (readValue depth)) (readInlineTable (readValue depth))

/-! ## Statements -/

/-- A statement of a document. -/
inductive Statement where
  /-- Opens a table. -/
  | table (path : List String) (key : String)
  /-- Opens a new element of an array of tables. -/
  | element (path : List String) (key : String)
  /-- Defines a key of the open table. -/
  | entry (path : List String) (key : String) (item : Item)

/-- Reads a statement and the end of its line. -/
def readStatement : Reader Statement := do
  if ← takeIf ['[', '['] then
    let (path, key) ← readKey
    expect [']', ']']
    lineEnd
    return .element path key
  else if ← takeIf ['['] then
    let (path, key) ← readKey
    expect [']']
    lineEnd
    return .table path key
  else
    let (path, key) ← readKey
    expect ['=']
    blanks
    let item ← readValue (depthLimit - 1)
    lineEnd
    return .entry path key item

/-- Reads the statements of a document; a byte order mark may stand in front. -/
def readStatements : Reader (List Statement) := do
  let _ ← takeIf ['\ufeff']
  let statements ← repeated do
    filler
    if (← get).isEmpty then return none else return some (← readStatement)
  return statements

/-! ## The tree -/

/-- A document that is being put together: the finished part, and the table that is open. -/
structure Draft where
  root : Entries
  /-- The place of the open table, `none` before the first header. -/
  place : Option (List String × String)
  /-- Whether the open table is an element of an array of tables. -/
  isElement : Bool
  entries : Entries

namespace Draft

/-- Nothing read yet. -/
def empty : Draft := ⟨[], none, false, []⟩

/-- The finished part with the open table put into its place. -/
def close (draft : Draft) : Except Error Entries :=
  match draft.place with
  | none => .ok draft.entries
  | some (path, key) => do
    let put := if draft.isElement then Entries.closeTables else Entries.closeTable
    return (← Entries.change (put key draft.entries) path draft.root).2

/-- Adds a statement. -/
def add (draft : Draft) : Statement → Except Error Draft
  | .entry path key item => do
    return { draft with entries := ← Entries.addDotted .dotted key item path draft.entries }
  | .table path key => do
    let (inner, root) ← Entries.change (Entries.openTable key) path (← draft.close)
    return ⟨root, some (path, key), false, inner⟩
  | .element path key => do
    let (_, root) ← Entries.change (Entries.openTables key) path (← draft.close)
    return ⟨root, some (path, key), true, []⟩

end Draft

/-- The tree a text stands for. -/
def parse (text : String) : Except Error Entries := do
  let (statements, _) ← readStatements text.toList
  (← statements.foldlM Draft.add Draft.empty).close

/-- The sentence shown for a text that is no document. -/
def Error.message (text : String) : Error → String
  | .malformed left =>
    let read := text.toList.take (text.length - left)
    "line " ++ toString (read.count '\n' + 1) ++ " is malformed"
  | .tooDeep => "values are nested too deep"
  | .duplicateKey key => "the key " ++ key ++ " is defined twice"
  | .notATable key => "the key " ++ key ++ " is not a table"

end LuaLex.Toml
