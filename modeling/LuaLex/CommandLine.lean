import LuaLex.Listing

/-!
# The command line

The grammar of the arguments: a command, options for all commands in front of it or behind it, and
behind it the options of the command and one file. Arguments are read from left to right, and the
first one that settles the outcome does so: an error, or a request for the version or for help.
Some options have an environment variable that stands in for them.
-/

namespace LuaLex

/-- The commands. -/
inductive CommandName where
  | tokens
  | check
  | reconstruct
  deriving Repr, DecidableEq

/-- The word for a command. -/
def CommandName.word : CommandName → String
  | tokens => "tokens"
  | check => "check"
  | reconstruct => "reconstruct"

/-- All commands. -/
def CommandName.all : List CommandName := [.tokens, .check, .reconstruct]

/-- The command of a word. -/
def CommandName.ofWord? (word : String) : Option CommandName :=
  all.find? (·.word == word)

/-- The options. -/
inductive Flag where
  | verbose
  | config
  | noColor
  | help
  | version
  | format
  | trivia
  | denyUnknown
  deriving Repr, DecidableEq

namespace Flag

/-- All options. -/
def all : List Flag := [verbose, config, noColor, help, version, format, trivia, denyUnknown]

/-- The long name of an option. -/
def long : Flag → String
  | verbose => "verbose"
  | config => "config"
  | noColor => "no-color"
  | help => "help"
  | version => "version"
  | format => "format"
  | trivia => "trivia"
  | denyUnknown => "deny-unknown"

/-- The short name of an option. -/
def short : Flag → Option Char
  | verbose => some 'v'
  | config => some 'c'
  | noColor => none
  | help => some 'h'
  | version => some 'V'
  | format => some 'F'
  | trivia => some 't'
  | denyUnknown => none

/-- Whether an option comes with a value. -/
def takesValue : Flag → Bool
  | config | format => true
  | _ => false

/-- Whether an option belongs to a command; without a command, whether it stands in front of it. -/
def isOf (command : Option CommandName) : Flag → Bool
  | verbose | config | noColor | help | version => true
  | format | trivia => command == some .tokens
  | denyUnknown => command == some .check

/-- Whether an option may have a value. -/
def accepts : Flag → String → Bool
  | format, value => (ListingFormat.ofName? value).isSome
  | _, value => value != ""

end Flag

/-- What is wrong with the arguments. -/
inductive UsageError where
  | unexpected (argument : String)
  | repeated (flag : Flag)
  | missingValue (flag : Flag)
  | invalidValue (flag : Flag) (value : String)
  | unwantedValue (flag : Flag)
  | missingCommand
  | missingFile
  | emptyFile
  | invalidVariable (flag : Flag)
  deriving Repr, DecidableEq

/-- The sentence shown for a usage error. -/
def UsageError.message : UsageError → String
  | unexpected argument => "unexpected argument " ++ Text.Quoted.quote argument
  | repeated flag => "the option --" ++ flag.long ++ " is given more than once"
  | missingValue flag => "the option --" ++ flag.long ++ " needs a value"
  | invalidValue flag value =>
    "the option --" ++ flag.long ++ " does not take " ++ Text.Quoted.quote value
  | unwantedValue flag => "the option --" ++ flag.long ++ " takes no value"
  | missingCommand => "a command is missing"
  | missingFile => "a file is missing"
  | emptyFile => "the name of the file is empty"
  | invalidVariable flag => "the variable for --" ++ flag.long ++ " has no valid value"

/-- Why reading the arguments ended before all were read. -/
inductive CommandLineEnd where
  | usage (e : UsageError)
  /-- The version is asked for, of the program or of a command. -/
  | version (command : Option CommandName)
  | help
  deriving Repr, DecidableEq

/-- The environment variables that stand in for options. -/
structure Environment where
  verbose : Option String := none
  config : Option String := none
  noColor : Option String := none

/-- What a command is to do. -/
inductive Request where
  | tokens (file : String) (format : Option ListingFormat) (trivia : Bool)
  | check (file : String) (denyUnknown : Bool)
  | reconstruct (file : String)
  deriving Repr, DecidableEq

/-- The file of a request. -/
def Request.file : Request → String
  | tokens file .. => file
  | check file _ => file
  | reconstruct file => file

/-- A complete command line. -/
structure Invocation where
  verbose : Bool
  config : Option String
  noColor : Bool
  request : Request
  deriving Repr, DecidableEq

namespace CommandLine

/-- Options with their values; those without a value have an empty one. -/
abbrev Given := List (Flag × String)

/-- What has been read so far. -/
structure Progress where
  /-- The options in front of the command. -/
  before : Given := []
  command : Option CommandName := none
  /-- The options behind the command. -/
  behind : Given := []
  file : Option String := none
  /-- The option whose value comes next. -/
  awaiting : Option Flag := none
  /-- Whether two hyphens have ended the options. -/
  onlyFiles : Bool := false
  /-- Whether the command is a request for help, and its topic. -/
  helping : Option (Option String) := none

namespace Progress

/-- The options given on the side of the command that is being read. -/
def given (p : Progress) : Given :=
  if p.command.isSome then p.behind else p.before

/-- Adds an option. On each side of the command it may be given once. -/
def addFlag (p : Progress) (flag : Flag) (value : String) : Except CommandLineEnd Progress :=
  match flag with
  | .help => .error .help
  | .version => .error (.version p.command)
  | _ =>
    if (p.given.lookup flag).isSome then .error (.usage (.repeated flag))
    else if flag.takesValue && !flag.accepts value then .error (.usage (.invalidValue flag value))
    else if p.command.isSome then .ok { p with behind := p.behind ++ [(flag, value)] }
    else .ok { p with before := p.before ++ [(flag, value)] }

/-- Adds the value of the option that waits for one. What looks like an option is no value. -/
def addValue (p : Progress) (flag : Flag) (arg : String) : Except CommandLineEnd Progress :=
  if arg.startsWith "-" && arg != "-" then .error (.usage (.missingValue flag))
  else { p with awaiting := none }.addFlag flag arg

/-- Adds the file. -/
def addFile (p : Progress) (arg : String) : Except CommandLineEnd Progress :=
  if p.command.isNone || p.file.isSome then .error (.usage (.unexpected arg))
  else if arg = "" then .error (.usage .emptyFile)
  else .ok { p with file := some arg }

/-- Adds an option by its long name, with the value behind an equals sign if there is one. -/
def addLong (p : Progress) (name : String) (value : Option String) :
    Except CommandLineEnd Progress :=
  match Flag.all.find? fun flag => flag.isOf p.command && flag.long == name with
  | none => .error (.usage (.unexpected ("--" ++ name)))
  | some flag =>
    match value, flag.takesValue with
    | some value, true => p.addFlag flag value
    | some _, false => .error (.usage (.unwantedValue flag))
    | none, true => .ok { p with awaiting := some flag }
    | none, false => p.addFlag flag ""

/-- Adds options by their short names. The first that takes a value has the rest as its value,
behind an equals sign or not; without a rest its value comes next. -/
def addShorts (p : Progress) : List Char → Except CommandLineEnd Progress
  | [] => .ok p
  | c :: rest =>
    match Flag.all.find? fun flag => flag.isOf p.command && flag.short == some c with
    | none => .error (.usage (.unexpected ("-" ++ c.toString)))
    | some flag =>
      if flag.takesValue then
        match rest with
        | [] => .ok { p with awaiting := some flag }
        | '=' :: value => p.addFlag flag (String.ofList value)
        | value => p.addFlag flag (String.ofList value)
      else do (← p.addFlag flag "").addShorts rest

/-- Adds the topic of a request for help. -/
def addTopic (p : Progress) (arg : String) : Except CommandLineEnd Progress :=
  if (CommandName.ofWord? arg).isSome || arg = "help" then
    .ok { p with helping := some (some arg) }
  else .error (.usage (.unexpected arg))

/-- An argument that begins with two hyphens, cut at its first equals sign. -/
def longParts (body : List Char) : String × Option String :=
  let (name, rest) := body.span (· != '=')
  (String.ofList name, rest.tail?.map String.ofList)

/-- Adds an argument that may be an option. -/
def addOption (p : Progress) (arg : String) : Except CommandLineEnd Progress :=
  match arg.toList with
  | ['-', '-'] => .ok { p with onlyFiles := true }
  | '-' :: '-' :: body => let (name, value) := longParts body; p.addLong name value
  | '-' :: c :: rest => p.addShorts (c :: rest)
  | _ => p.addFile arg

/-- Adds an argument. -/
def add (p : Progress) (arg : String) : Except CommandLineEnd Progress :=
  match p.awaiting, p.helping with
  | some flag, _ => p.addValue flag arg
  | none, some (some _) => .error (.usage (.unexpected arg))
  | none, some none => p.addTopic arg
  | none, none =>
    if p.onlyFiles then p.addFile arg
    else if p.command.isNone && (CommandName.ofWord? arg).isSome then
      .ok { p with command := CommandName.ofWord? arg }
    else if p.command.isNone && arg = "help" then .ok { p with helping := some none }
    else p.addOption arg

end Progress

/-! ## The variables -/

/-- The value of the variable for an option, if it has one and it is set. -/
def variableFor (env : Environment) : Flag → Option String
  | .verbose => env.verbose
  | .config => env.config
  | .noColor => env.noColor
  | _ => none

/-- Whether a variable may have a value: those of switches are spelled out. -/
def isVariableValue (flag : Flag) (value : String) : Bool :=
  if flag.takesValue then flag.accepts value else value == "true" || value == "false"

/-- Checks the variables of options that are not given. -/
def checkVariables (env : Environment) (given : Given) : Except CommandLineEnd Unit :=
  let invalid := Flag.all.find? fun flag =>
    (given.lookup flag).isNone && (variableFor env flag).any (!isVariableValue flag ·)
  match invalid with
  | some flag => .error (.usage (.invalidVariable flag))
  | none => .ok ()

/-- Whether a switch is on: given on one side of the command, or by its variable. -/
def isOn (env : Environment) (p : Progress) (flag : Flag) : Bool :=
  (p.before.lookup flag).isSome || (p.behind.lookup flag).isSome ||
    variableFor env flag == some "true"

/-- The value of an option: behind the command before in front of it, and both before the
variable. -/
def valueOf (env : Environment) (p : Progress) (flag : Flag) : Option String :=
  p.behind.lookup flag <|> p.before.lookup flag <|> variableFor env flag

/-! ## The whole -/

/-- The request of a command. -/
def requestOf (p : Progress) (command : CommandName) (file : String) : Request :=
  match command with
  | .tokens =>
    .tokens file ((p.behind.lookup .format).bind ListingFormat.ofName?)
      (p.behind.lookup .trivia).isSome
  | .check => .check file (p.behind.lookup .denyUnknown).isSome
  | .reconstruct => .reconstruct file

/-- Completes what was read when no arguments are left. -/
def finish (env : Environment) (p : Progress) : Except CommandLineEnd Invocation :=
  match p.awaiting, p.helping, p.command, p.file with
  | some flag, _, _, _ => .error (.usage (.missingValue flag))
  | none, some _, _, _ => .error .help
  | none, none, none, _ => .error (.usage .missingCommand)
  | none, none, some _, none => .error (.usage .missingFile)
  | none, none, some command, some file => do
    checkVariables env p.behind
    checkVariables env p.before
    return {
      verbose := isOn env p .verbose
      config := valueOf env p .config
      noColor := isOn env p .noColor
      request := requestOf p command file }

/-- Reads the arguments. -/
def parse (args : List String) (env : Environment) : Except CommandLineEnd Invocation := do
  finish env (← args.foldlM Progress.add {})

end CommandLine

end LuaLex
