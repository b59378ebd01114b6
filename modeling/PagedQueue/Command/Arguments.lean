import PagedQueue.Message
import PagedQueue.Settings
import PagedQueue.Text.Decimal

/-!
# Command-line arguments

A command line is options of the program, then the name of a command, then the arguments of the
command. Options of the program are not known behind the name. Arguments are read from left to
right, and the first one that cannot be accepted, or that asks for help, decides.

An argument that begins with two hyphens is a long option, with its value behind an equals sign or
in the next argument; one hyphen begins a group of short options; two hyphens alone end the options.
All else, a single hyphen included, is a word.
-/

namespace PagedQueue

/-- What the program is asked to do with a queue. -/
inductive Command where
  /-- Count the records and measure the page files. -/
  | stats
  /-- Print every record. -/
  | dump
  /-- Push a message under a fresh UUID. -/
  | push (payload : String) (kind : Kind)
  /-- Take the oldest message that waits, and finish it at once if asked to. -/
  | pop (finish : Bool)
  /-- Give a taken message back. -/
  | rollback (uuid : Uuid)
  deriving DecidableEq

/-- A command and the queue it is for. -/
structure Invocation where
  directory : String
  pageSize : Nat
  command : Command
  deriving DecidableEq

/-- What a command line asks for. -/
inductive Request where
  | run (invocation : Invocation)
  | help
  | version
  deriving DecidableEq

/-- Why a command line is not accepted. -/
inductive UsageError where
  | missingCommand
  | unknownCommand (name : String)
  | unexpectedArgument (argument : String)
  | repeatedArgument (argument : String)
  | missingValue (argument : String)
  | invalidValue (argument value : String)
  deriving DecidableEq

/-- The text of a usage error. -/
def UsageError.message : UsageError → String
  | missingCommand => "a command is required"
  | unknownCommand name => "unknown command " ++ name
  | unexpectedArgument argument => "unexpected argument " ++ argument
  | repeatedArgument argument => argument ++ " cannot be used more than once"
  | missingValue argument => "a value is required for " ++ argument
  | invalidValue argument value => "invalid value " ++ value ++ " for " ++ argument

/-- The form of one argument. -/
inductive Argument where
  /-- A long option with the value behind its equals sign, if it has one. -/
  | long (name : String) (value : Option String)
  /-- A group of short options. -/
  | short (first : Char) (rest : List Char)
  /-- The end of the options. -/
  | separator
  | word (text : String)
  deriving DecidableEq

/-- The form of an argument. -/
def Argument.ofString (text : String) : Argument :=
  match text.toList with
  | ['-', '-'] => separator
  | '-' :: '-' :: rest =>
    let value := rest.dropWhile (· ≠ '=')
    long (String.ofList (rest.takeWhile (· ≠ '=')))
      (if value = [] then none else some (String.ofList value.tail))
  | '-' :: first :: rest => short first rest
  | _ => word text

/-! ## Arguments of the commands -/

/-- Which arguments a command takes. -/
structure Shape (α : Type) where
  /-- How the word that it requires is read, if it requires one. -/
  word : Option (String → Except UsageError α)
  /-- The name of the flag that it knows. -/
  flag : Option String

/-- The word and the flag found so far among the arguments of a command. -/
structure Found (α : Type) where
  word : Option α := none
  flag : Bool := false

/-- Reads the arguments of a command; none if help is asked for. A word is read where it stands, so
that one that cannot be read decides before what follows it. -/
def Found.read {α : Type} (shape : Shape α) (found : Found α) (ended : Bool) :
    List String → Except UsageError (Option (Found α))
  | [] => .ok (some found)
  | text :: rest =>
    match if ended then Argument.word text else Argument.ofString text with
    | .separator => found.read shape true rest
    | .long "help" none => .ok none
    | .short 'h' _ => .ok none
    | .long name none =>
      if shape.flag ≠ some name then .error (.unexpectedArgument text)
      else if found.flag then .error (.repeatedArgument text)
      else { found with flag := true }.read shape ended rest
    | .word word =>
      match shape.word, found.word with
      | some readWord, none => do
        let word ← readWord word
        { found with word := some word }.read shape ended rest
      | _, _ => .error (.unexpectedArgument text)
    | _ => .error (.unexpectedArgument text)

/-- The names of the commands. -/
def commandNames : List String := ["stats", "dump", "push", "pop", "rollback"]

/-- The word that a command requires. -/
def Found.required {α : Type} (found : Found α) (name : String) : Except UsageError α :=
  match found.word with
  | some word => .ok word
  | none => .error (.missingValue name)

/-- Reads the UUID that a command requires. -/
def readUuid (text : String) : Except UsageError Uuid :=
  match Uuid.read? text with
  | some uuid => .ok uuid
  | none => .error (.invalidValue "UUID" text)

/-- The arguments of a command that takes no word. -/
def Shape.flagOnly (flag : Option String) : Shape Empty := ⟨none, flag⟩

/-- The arguments of a command that takes the text of a message. -/
def Shape.payload : Shape String := ⟨some .ok, some "json"⟩

/-- The arguments of a command that takes the UUID of a message. -/
def Shape.uuid : Shape Uuid := ⟨some readUuid, none⟩

/-- Reads the arguments behind the name of a command; none if help is asked for. -/
def Command.ofArguments (name : String) (arguments : List String) :
    Except UsageError (Option Command) :=
  match name with
  | "stats" => do
    let found? ← Found.read (.flagOnly none) {} false arguments
    return found?.map fun _ => .stats
  | "dump" => do
    let found? ← Found.read (.flagOnly none) {} false arguments
    return found?.map fun _ => .dump
  | "push" => do
    match ← Found.read .payload {} false arguments with
    | none => return none
    | some found =>
      return some (.push (← found.required "PAYLOAD") (if found.flag then .json else .text))
  | "pop" => do
    let found? ← Found.read (.flagOnly (some "delete")) {} false arguments
    return found?.map fun found => .pop found.flag
  | "rollback" => do
    match ← Found.read .uuid {} false arguments with
    | none => return none
    | some found => return some (.rollback (← found.required "UUID"))
  | _ => .error (.unknownCommand name)

/-! ## Options of the program -/

/-- The options of the program found so far. -/
structure Options where
  directory : Option String := none
  pageSize : Option Nat := none

/-- The options of the program that have a value. -/
inductive OptionName where
  | directory
  | pageSize
  deriving DecidableEq

/-- The option of a long name. -/
def OptionName.ofLong? : String → Option OptionName
  | "data-dir" => some directory
  | "page-size" => some pageSize
  | _ => none

/-- The option of a short name. -/
def OptionName.ofShort? : Char → Option OptionName
  | 'd' => some directory
  | 'p' => some pageSize
  | _ => none

/-- Notes the value of an option, which is accepted once. -/
def Options.set (options : Options) (value : String) : OptionName → Except UsageError Options
  | .directory =>
    if options.directory.isSome then .error (.repeatedArgument "--data-dir")
    else .ok { options with directory := some value }
  | .pageSize =>
    if options.pageSize.isSome then .error (.repeatedArgument "--page-size")
    else match Decimal.readBelow? UInt64.size value.toList with
      | some size => .ok { options with pageSize := some size }
      | none => .error (.invalidValue "--page-size" value)

/-- Reads the command that follows the options. -/
def Options.invoke (options : Options) (name : String) (rest : List String) :
    Except UsageError Request := do
  let defaults : Settings := {}
  match ← Command.ofArguments name rest with
  | none => return .help
  | some command =>
    return .run {
      directory := options.directory.getD defaults.directory
      pageSize := options.pageSize.getD defaults.pageSize
      command }

/-- What a request for help on these commands answers. -/
def helpOn : List String → Except UsageError Request
  | [] => .ok .help
  | [name] => if name ∈ "help" :: commandNames then .ok .help else .error (.unknownCommand name)
  | _ :: name :: _ => .error (.unknownCommand name)

/-- What one argument in front of the name of a command asks for. -/
inductive OptionStep where
  | help
  | version
  /-- An option with its value in the same argument. -/
  | assign (option : OptionName) (value : String)
  /-- An option whose value is the next argument. -/
  | await (option : OptionName)
  | command (name : String)
  | refuse
  deriving DecidableEq

/-- What an argument in front of the name of a command asks for. -/
def OptionStep.ofArgument : Argument → OptionStep
  | .long "help" none | .short 'h' _ => help
  | .long "version" none | .short 'V' _ => version
  | .long name value =>
    match OptionName.ofLong? name, value with
    | some option, some value => assign option value
    | some option, none => await option
    | none, _ => refuse
  | .short letter rest =>
    match OptionName.ofShort? letter, rest with
    | some option, [] => await option
    | some option, '=' :: value => assign option (String.ofList value)
    | some option, value => assign option (String.ofList value)
    | none, _ => refuse
  | .separator => refuse
  | .word name => command name

/-- Reads a command line whose first options have been read. -/
def Options.read (options : Options) : List String → Except UsageError Request
  | [] => .error .missingCommand
  | text :: rest =>
    match OptionStep.ofArgument (Argument.ofString text) with
    | .help => .ok .help
    | .version => .ok .version
    | .assign option value => do (← options.set value option).read rest
    | .await option =>
      match rest with
      | [] => .error (.missingValue text)
      | value :: rest =>
        match Argument.ofString value with
        | .word _ => do (← options.set value option).read rest
        | _ => .error (.missingValue text)
    | .command "help" => helpOn rest
    | .command name => options.invoke name rest
    | .refuse => .error (.unexpectedArgument text)

/-- Reads a command line. -/
def Request.ofArguments (arguments : List String) : Except UsageError Request :=
  Options.read {} arguments

end PagedQueue
