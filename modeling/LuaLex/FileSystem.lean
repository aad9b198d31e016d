/-!
# Paths and what they lead to

The program sees files through a function from paths to what they lead to. `FileTree` is such a file
system held as a list of files and directories.
-/

namespace LuaLex

/-- What a path leads to. -/
inductive PathEntry where
  | missing
  | directory
  | file (bytes : List UInt8)

/-- The files as the program sees them. -/
abbrev FileSystem := String → PathEntry

/-- The parts of a path between its slashes. -/
def pathParts (path : String) : List String := path.splitOn "/"

/-- Whether a part of a path leads nowhere else: an empty part, or a single point. -/
def isIdlePart (part : String) : Bool := part == "" || part == "."

/-- A hyphen stands for standard input, also with idle parts behind it. -/
def isStandardInput (path : String) : Bool :=
  match pathParts path with
  | first :: rest => first == "-" && rest.all isIdlePart
  | [] => false

/-- The name an input is known by in messages. -/
def displayName (path : String) : String :=
  if isStandardInput path then "<stdin>" else path

/-- Files and directories by the names that lead to them from the top. Every directory on the way to
an entry is there too. -/
structure FileTree where
  entries : List (List String × PathEntry)

namespace FileTree

/-- A tree of files and directories, each at a path from the top. -/
def ofPaths (entries : List (String × PathEntry)) : FileTree :=
  ⟨entries.map fun entry => ((pathParts entry.1).filter (!isIdlePart ·), entry.2)⟩

/-- What is at a place. -/
def at? (tree : FileTree) (place : List String) : PathEntry :=
  match tree.entries.lookup place with
  | some entry => entry
  | none =>
    if place.isEmpty || tree.entries.any (fun entry => place.isPrefixOf entry.1) then .directory
    else .missing

/-- Whether there is a directory at a place. -/
def isDirectory (tree : FileTree) (place : List String) : Bool :=
  match tree.at? place with
  | .directory => true
  | _ => false

/-- Follows the parts of a path from a place; only directories can be walked through. -/
def walk (tree : FileTree) (place : List String) : List String → PathEntry
  | [] => tree.at? place
  | part :: parts =>
    if tree.isDirectory place then
      if isIdlePart part then tree.walk place parts
      else if part = ".." then tree.walk place.dropLast parts
      else tree.walk (place ++ [part]) parts
    else .missing

/-- What a path leads to from the top of the tree. The tree is all there is, so a path from the root
of the machine leads nowhere but to that root. -/
def toFileSystem (tree : FileTree) : FileSystem := fun path =>
  match pathParts path with
  | [] | [""] => .missing
  | "" :: parts => if parts.all isIdlePart then .directory else .missing
  | parts => tree.walk [] parts

end FileTree

end LuaLex
