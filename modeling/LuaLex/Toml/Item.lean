import LuaLex.Toml.Reader

/-!
# TOML values and tables

The tree a TOML document stands for. A table remembers how it came to be, because that decides
whether it may be opened or added to later.
-/

namespace LuaLex.Toml

/-- How a table came to be. -/
inductive Origin where
  /-- As a parent in the header of another table. -/
  | implied
  /-- Through a dotted key. -/
  | dotted
  /-- By a header of its own. -/
  | header
  /-- Between braces. -/
  | braces
  /-- Through a dotted key between braces. -/
  | dottedInBraces
  deriving Repr, DecidableEq

/-- Whether a table came to be through a dotted key. -/
def Origin.isDotted : Origin → Bool
  | .dotted | .dottedInBraces => true
  | _ => false

/-- Whether a table was written between braces or is part of one that was. -/
def Origin.isInline : Origin → Bool
  | .braces | .dottedInBraces => true
  | _ => false

/-- A value or a table. Numbers and dates are checked and not kept. -/
inductive Item where
  | string (s : String)
  | boolean (b : Bool)
  | number
  | dateTime
  | array (items : List Item)
  | table (origin : Origin) (entries : List (String × Item))
  /-- An array of tables, opened element by element by headers in double brackets. -/
  | tables (elements : List (List (String × Item)))

/-- The entries of a table in the order in which they were defined. -/
abbrev Entries := List (String × Item)

namespace Entries

/-- Replaces the item of a key. -/
def replace (entries : Entries) (key : String) (item : Item) : Entries :=
  entries.map fun entry => if entry.1 = key then (key, item) else entry

/-- Removes a key. -/
def without (entries : Entries) (key : String) : Entries :=
  entries.filter fun entry => entry.1 != key

/-- Adds a key that must be new. -/
def add (entries : Entries) (key : String) (item : Item) : Except Error Entries :=
  match entries.lookup key with
  | some _ => .error (.duplicateKey key)
  | none => .ok (entries ++ [(key, item)])

/-- Whether a dotted key may lead into a table on to `path`: not into one with a header of its own,
and to the table it ends in only if that is there through a dotted key too. -/
def mayEnter (origin : Origin) (path : List String) : Bool :=
  origin.isDotted || (origin == .implied && !path.isEmpty)

/-- Adds the item of a dotted key: `path` leads to the table that gets `key`. Tables on the way that
are missing come to be as `fresh`. -/
def addDotted (fresh : Origin) (key : String) (item : Item) :
    List String → Entries → Except Error Entries
  | [], entries => entries.add key item
  | step :: path, entries =>
    match entries.lookup step with
    | none => do
      let inner ← addDotted fresh key item path []
      return entries ++ [(step, .table fresh inner)]
    | some (.table origin inner) =>
      if mayEnter origin path then do
        let inner ← addDotted fresh key item path inner
        return entries.replace step (.table origin inner)
      else .error (.duplicateKey step)
    | some (.tables elements) =>
      match path, elements.getLast? with
      | _ :: _, some inner => do
        let inner ← addDotted fresh key item path inner
        return entries.replace step (.tables (elements.dropLast ++ [inner]))
      | _, _ => .error (.duplicateKey step)
    | some _ => .error (.notATable step)

/-- Changes the table that a header's `path` leads to. Of an array of tables that is the last
element; missing tables come to be as implied ones. -/
def change {β : Type} (f : Entries → Except Error (β × Entries)) :
    List String → Entries → Except Error (β × Entries)
  | [], entries => f entries
  | step :: path, entries =>
    match entries.lookup step with
    | none => do
      let (b, inner) ← change f path []
      return (b, entries ++ [(step, .table .implied inner)])
    | some (.table origin inner) =>
      if origin.isInline then .error (.notATable step)
      else do
        let (b, inner) ← change f path inner
        return (b, entries.replace step (.table origin inner))
    | some (.tables elements) =>
      match elements.getLast? with
      | none => .error (.notATable step)
      | some inner => do
        let (b, inner) ← change f path inner
        return (b, entries.replace step (.tables (elements.dropLast ++ [inner])))
    | some _ => .error (.notATable step)

/-- Takes the table a header opens out of its parent: an implied one with what it holds, or a new
one. A table can be opened only once. -/
def openTable (key : String) (parent : Entries) : Except Error (Entries × Entries) :=
  match parent.lookup key with
  | none => .ok ([], parent)
  | some (.table .implied inner) => .ok (inner, parent.without key)
  | some _ => .error (.duplicateKey key)

/-- Makes sure that a key holds an array of tables. -/
def openTables (key : String) (parent : Entries) : Except Error (Unit × Entries) :=
  match parent.lookup key with
  | none => .ok ((), parent ++ [(key, .tables [])])
  | some (.tables _) => .ok ((), parent)
  | some _ => .error (.duplicateKey key)

/-- Puts a finished table into its parent. -/
def closeTable (key : String) (inner : Entries) (parent : Entries) :
    Except Error (Unit × Entries) := do
  return ((), ← parent.add key (.table .header inner))

/-- Adds a finished table to the array of tables of its parent. -/
def closeTables (key : String) (inner : Entries) (parent : Entries) :
    Except Error (Unit × Entries) :=
  match parent.lookup key with
  | some (.tables elements) => .ok ((), parent.replace key (.tables (elements ++ [inner])))
  | _ => .error (.duplicateKey key)

end Entries

end LuaLex.Toml
