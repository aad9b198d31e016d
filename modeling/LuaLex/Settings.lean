import LuaLex.Failure
import LuaLex.FileSystem
import LuaLex.Listing
import LuaLex.Toml.Document

/-!
# Settings

Defaults for the command line, read from a TOML file. Every setting may be missing, keys that are no
settings are passed over, and a setting of the wrong type makes the whole file invalid. A section
may be a table, or an array that holds its settings in their order.
-/

namespace LuaLex

/-- What a settings file decides. -/
structure Settings where
  verbose : Bool := false
  format : ListingFormat := .text
  showTrivia : Bool := false
  denyDefects : Bool := false
  deriving Repr, DecidableEq

namespace Settings

open Toml (Item Entries)

/-- The error for a setting of the wrong type. -/
def wrongType {α : Type} (setting expected : String) : Except String α :=
  .error (setting ++ " has to be " ++ expected)

/-- Reads a switch. -/
def toggle (setting : String) : Option Item → Except String Bool
  | none => .ok false
  | some (.boolean b) => .ok b
  | some _ => wrongType setting "true or false"

/-- Whether an item can stand behind the name of a choice: an empty array or table. -/
def isEmptyItem : Item → Bool
  | .array items => items.isEmpty
  | .table _ entries => entries.isEmpty
  | _ => false

/-- Reads a format: its name, or a table that has its name as the only key, with nothing in it. -/
def listingFormat (setting : String) : Option Item → Except String ListingFormat
  | none => .ok .text
  | some (.string name) => choose name
  | some (.table _ [(name, item)]) =>
    if isEmptyItem item then choose name else wrongType setting "the name of a format"
  | some _ => wrongType setting "the name of a format"
where
  choose (name : String) : Except String ListingFormat :=
    match ListingFormat.ofName? name with
    | some format => .ok format
    | none => wrongType setting "text or json"

/-- The settings of a section by their keys: those of a table, or those of an array in order. A date
may stand in the place of a section and holds no settings. -/
def sectionOf (setting : String) (keys : List String) :
    Option Item → Except String (String → Option Item)
  | none | some .dateTime => .ok fun _ => none
  | some (.table _ entries) => .ok fun key => entries.lookup key
  | some (.array items) => .ok fun key => (keys.zip items).lookup key
  | some (.tables elements) =>
    .ok fun key => (keys.zip elements).lookup key |>.map (Item.table .header)
  | some _ => wrongType setting "a table"

/-- The settings a document decides. -/
def ofEntries (entries : Entries) : Except String Settings := do
  let verbose ← toggle "verbose" (entries.lookup "verbose")
  let output ← sectionOf "output" ["format", "show_trivia"] (entries.lookup "output")
  let format ← listingFormat "format" (output "format")
  let showTrivia ← toggle "show_trivia" (output "show_trivia")
  let check ← sectionOf "check" ["deny_unknown"] (entries.lookup "check")
  let denyDefects ← toggle "deny_unknown" (check "deny_unknown")
  return { verbose, format, showTrivia, denyDefects }

/-- Reads settings from the text of a file. -/
def parse (text : String) : Except String Settings :=
  match Toml.parse text with
  | .ok entries => ofEntries entries
  | .error e => .error (e.message text)

/-- Reads settings from the file at a path. -/
def loadFrom (files : FileSystem) (path : String) : Except Failure Settings :=
  match files path with
  | .missing => .error (.settingsNotFound path)
  | .directory => .error .isDirectory
  | .file bytes =>
    match String.fromUTF8? bytes.toByteArray with
    | none => .error .notText
    | some text =>
      match parse text with
      | .ok settings => .ok settings
      | .error reason => .error (.settingsMalformed reason)

/-- The name of a settings file. -/
def fileName : String := "lunart.toml"

/-- Where settings are looked for: in the working directory, then below the home directory, then in
the directory for settings. -/
def places (home configHome : Option String) : List String :=
  [fileName] ++
    (home.map fun dir => dir ++ "/.config/lunart/" ++ fileName).toList ++
    (configHome.map fun dir => dir ++ "/lunart/" ++ fileName).toList

/-- Reads settings from the first place where there is something; without any, the defaults hold. -/
def load (files : FileSystem) (places : List String) : Except Failure Settings :=
  match places.find? fun path => match files path with | .missing => false | _ => true with
  | some path => loadFrom files path
  | none => .ok {}

end Settings

end LuaLex
