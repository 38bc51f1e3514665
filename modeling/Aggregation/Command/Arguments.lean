/-!
# Command lines

The commands and their options.  Arguments are taken in order and the first
fault decides.  An option's value is settled only when the next argument has
been recognized, so of two faults an unknown argument comes before a missing or
repeated value that it follows.
-/

namespace Aggregation

inductive Command where
  | validate (config : String)
  | list (config : String)
  | compile (config name : String) (params : Option String)
  deriving DecidableEq

namespace Command

/-- Where the configuration stands. -/
def configPath : Command → String
  | validate config => config
  | list config => config
  | compile config _ _ => config

/-- Where the bindings stand, if they are given. -/
def paramsPath? : Command → Option String
  | compile _ _ params => params
  | _ => none

end Command

/-- Why a command line runs no command. -/
inductive UsageFault where
  | missingRequiredArgument
  | invalidValue
  | unknownArgument
  | invalidSubcommand
  | argumentConflict
  | tooManyValues
  | displayHelp
  | displayVersion
  | displayHelpOnMissingArgumentOrSubcommand
  deriving DecidableEq

/-- Asking for help or for the version is no failure. -/
def UsageFault.exitCode : UsageFault → Nat
  | displayHelp => 0
  | displayVersion => 0
  | _ => 2

inductive CommandOption where
  | config
  | name
  | params
  deriving DecidableEq

namespace CommandOption

def flag : CommandOption → String
  | config => "config"
  | name => "name"
  | params => "params"

/-- A path must not be empty. -/
def isPath : CommandOption → Bool
  | name => false
  | _ => true

end CommandOption

/-- The ways an argument can be meant. -/
inductive Argument where
  | separator
  | long (flag : String) (value : Option String)
  | short (flag : Char)
  | plain (text : String)

namespace Argument

def ofText (text : String) : Argument :=
  match text.toList with
  | ['-', '-'] => separator
  | '-' :: '-' :: rest =>
    let flag := String.ofList (rest.takeWhile (· ≠ '='))
    match rest.dropWhile (· ≠ '=') with
    | _ :: value => long flag (some (String.ofList value))
    | [] => long flag none
  | '-' :: c :: _ => short c
  | _ => plain text

end Argument

namespace CommandLine

abbrev Given := List (CommandOption × String)

/-- An option that waits for its value, or whose value is not settled yet. -/
abbrev Pending := Option (CommandOption × Option String)

/-- Settles the value of the option before. -/
def settle (given : Given) : Pending → Except UsageFault Given
  | none => .ok given
  | some (_, none) => .error .invalidValue
  | some (option, some value) =>
    if (given.lookup option).isSome then .error .argumentConflict
    else if option.isPath && value.isEmpty then .error .invalidValue
    else .ok (given ++ [(option, value)])

/-- The options of one command. -/
def readOptions (known : List CommandOption) :
    Given → Pending → List String → Except UsageFault Given
  | given, pending, [] => settle given pending
  | given, pending, text :: rest =>
    match Argument.ofText text with
    | .separator =>
      if rest.isEmpty then settle given pending else .error .unknownArgument
    | .short c =>
      if c = 'h' then do
        let _ ← settle given pending
        .error .displayHelp
      else .error .unknownArgument
    | .long "help" none => do
      let _ ← settle given pending
      .error .displayHelp
    | .long "help" (some _) => .error .tooManyValues
    | .long flag value =>
      match known.find? (·.flag = flag) with
      | none => .error .unknownArgument
      | some option => do
        let given ← settle given pending
        match value with
        | none => readOptions known given (some (option, none)) rest
        | some value => do
          let given ← settle given (some (option, some value))
          readOptions known given none rest
    | .plain value =>
      match pending with
      | some (option, none) =>
        readOptions known given (some (option, some value)) rest
      | _ => .error .unknownArgument

def defaultConfig : String := "./aggc.json"

def configOf (given : Given) : String :=
  (given.lookup .config).getD defaultConfig

def commandNames : List String := ["validate", "list", "compile", "help"]

/-- Help is given for one command at most. -/
def readHelp : List String → UsageFault
  | [] => .displayHelp
  | [name] => if name ∈ commandNames then .displayHelp else .invalidSubcommand
  | _ => .invalidSubcommand

def readCommand (name : String) (arguments : List String) :
    Except UsageFault Command :=
  match name with
  | "validate" => do
    let given ← readOptions [.config] [] none arguments
    pure (.validate (configOf given))
  | "list" => do
    let given ← readOptions [.config] [] none arguments
    pure (.list (configOf given))
  | "compile" => do
    let given ← readOptions [.config, .name, .params] [] none arguments
    match given.lookup .name with
    | some name => pure (.compile (configOf given) name (given.lookup .params))
    | none => .error .missingRequiredArgument
  | _ => .error (readHelp arguments)

/-- A known command after a separator is refused as an argument. -/
def readSeparated : List String → UsageFault
  | [] => .displayHelpOnMissingArgumentOrSubcommand
  | text :: _ =>
    if text ∈ commandNames then .unknownArgument else .invalidSubcommand

/-- Reads the arguments after the program's name. -/
def read : List String → Except UsageFault Command
  | [] => .error .displayHelpOnMissingArgumentOrSubcommand
  | text :: rest =>
    if text ∈ commandNames then readCommand text rest
    else
      match Argument.ofText text with
      | .separator => .error (readSeparated rest)
      | .long "help" none => .error .displayHelp
      | .long "version" none => .error .displayVersion
      | .long "help" (some _) => .error .tooManyValues
      | .long "version" (some _) => .error .tooManyValues
      | .long .. => .error .unknownArgument
      | .short 'h' => .error .displayHelp
      | .short 'V' => .error .displayVersion
      | .short _ => .error .unknownArgument
      | .plain _ => .error .invalidSubcommand

end CommandLine

end Aggregation
