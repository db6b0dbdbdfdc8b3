import MetadataBlock.Command.Arguments
import MetadataBlock.Command.Help
import MetadataBlock.Command.Run
import MetadataBlock.Command.Spelling
import MetadataBlock.Command.Value

/-!
# The command line

`CommandLine.parse` says what a command line asks for, or why it asks for nothing.
`CommandLine.run` answers it.

The options in front of any command are read first, from all arguments. The first
operand is the command, and it reads what is left. A request for help goes before
a complaint about an unknown option, and that before one about a missing operand.
-/

namespace MetadataBlock

/-- What is wrong with a command line. -/
inductive UsageError where
  | unknownCommand (name : Text)
  /-- With the long options that are known. -/
  | unknownOption (option : Text) (known : List Text)
  | missingOperand (name : Text)
  | missingValue (option : Flag)
  | invalidValue (option : Flag) (value : Text) (reason : CountError)
  deriving DecidableEq, Repr

namespace UsageError

/-- The names that stand for a command. -/
def commandNames : List Text :=
  Command.all.map Command.name ++ [helpName]

/-- Words that are not known are followed by a hint at near ones; options of one letter
are too short for that. -/
def message : UsageError → Text
  | unknownCommand name =>
    "error: unknown command " ++ Text.quoted name ++ Spelling.hint name commandNames
  | unknownOption option known =>
    "error: unknown option " ++ Text.quoted option
      ++ if Spelling.dashes.isPrefixOf option then Spelling.hint option known else []
  | missingOperand name => "error: missing required argument " ++ Text.quoted name
  | missingValue option => "error: option " ++ Text.quoted option.usage ++ " argument missing"
  | invalidValue option value reason =>
    "error: option " ++ Text.quoted option.usage ++ " argument " ++ Text.quoted value
      ++ " is invalid. " ++ reason.message

end UsageError

/-- What a command line asks for. -/
inductive Request where
  | version
  /-- Help about a command, or about the program. -/
  | help (topic : Option Command)
  /-- Nothing that could be done: show how the program is used. -/
  | usage
  | check (files : List Text) (o : RunOptions)
  | convert (file : Text) (outfile : Option Text) (o : RunOptions)
  | rules (json : Bool)

namespace CommandLine

/-- What the options of a command were set to. -/
structure Chosen where
  settings : CommandLineSettings := {}
  verbosity : Nat := 0
  outputFormat : Option Text := none
  outfile : Option Text := none

/-- Is the output asked for as JSON? Any other format means text. -/
def isJson (outputFormat : Option Text) : Bool :=
  outputFormat == some "json"

/-- A count for an option. -/
def count (f : Flag) (value : Text) (r : Except CountError Number) : Except UsageError Number :=
  r.mapError (.invalidValue f value)

/-- Carry out an option of a command. Lists grow, a repeated option makes the output
more verbose, and other values are replaced. -/
def Chosen.set (c : Chosen) (f : Flag) (value : Text) : Except UsageError Chosen := do
  let s := c.settings
  match f with
  | .error => return { c with settings := { s with error := s.error ++ splitIdentifiers value } }
  | .warn => return { c with settings := { s with warn := s.warn ++ splitIdentifiers value } }
  | .skip => return { c with settings := { s with skip := s.skip ++ splitIdentifiers value } }
  | .warningExitCode =>
    let n ← count f value (parseCount value)
    return { c with settings := { s with warningExitCode := some n } }
  | .minPrefixLength =>
    let n ← count f value (parsePositiveCount value)
    return { c with settings := { s with minPrefixLength := some n } }
  | .typoThreshold =>
    let n ← count f value (parseCount value)
    return { c with settings := { s with typoThreshold := some n } }
  | .verbose => return { c with verbosity := c.verbosity + 1 }
  | .outputFormat => return { c with outputFormat := some value }
  | .outfile => return { c with outfile := some value }
  | .version | .config => return c

/-- The last value given for an option. -/
def lastValue? (given : List (Flag × Text)) (f : Flag) : Option Text :=
  (given.filter fun g => g.1 = f).getLast?.map (·.2)

/-- A word that some command line ended with instead of a value. -/
def requireValue (missing : Option Flag) : Except UsageError Unit :=
  match missing with
  | none => .ok ()
  | some f => .error (.missingValue f)

/-- The long forms of the options in front of any command. -/
def generalLongs : List Text :=
  Flag.general.map Flag.long ++ [helpLong]

/-- The long forms of all options that a command knows. -/
def commandLongs (command : Command) : List Text :=
  command.flags.map Flag.long ++ [helpLong] ++ generalLongs

/-- What the arguments of a command ask for. -/
def parseCommand (command : Command) (config : Option Text) (operands rest : List Text) :
    Except UsageError Request := do
  let own := Arguments.read command.flags false rest
  let chosen ← own.given.foldlM (fun c (f, value) => c.set f value) ({} : Chosen)
  requireValue own.missing?
  if own.unknown.any asksForHelp then return .help (some command)
  if let some option := own.unknown.head? then
    throw (.unknownOption option (commandLongs command))
  let json := isJson chosen.outputFormat
  let options : RunOptions :=
    { configPath := config, settings := chosen.settings, verbosity := chosen.verbosity, json }
  match command, operands ++ own.operands with
  | .check, [] => throw (.missingOperand "files")
  | .check, files => return .check files options
  | .convert, [] => throw (.missingOperand "file")
  | .convert, file :: _ => return .convert file chosen.outfile options
  | .rules, _ => return .rules json

/-- What a request for help about a topic asks for. An empty topic is none. -/
def parseHelp (topic : Option Text) : Request :=
  match topic with
  | none | some [] => .help none
  | some name =>
    match Command.ofName? name with
    | some command => .help (some command)
    | none => .usage

/-- What the arguments ask for if they name no command. -/
def parseRest (operands rest : List Text) : Except UsageError Request :=
  if rest.any asksForHelp then .ok (.help none)
  else
    match operands, rest with
    | name :: _, _ => .error (.unknownCommand name)
    | [], option :: _ => .error (.unknownOption option generalLongs)
    | [], [] => .ok .usage

/-- What a command line asks for. -/
def parse (args : List Text) : Except UsageError Request := do
  let general := Arguments.read Flag.general false args
  if general.given.any fun g => g.1 = .version then return .version
  requireValue general.missing?
  let config := lastValue? general.given .config
  match general.operands with
  | [] => parseRest [] general.unknown
  | name :: operands =>
    match Command.ofName? name with
    | some command => parseCommand command config operands general.unknown
    | none =>
      if name == helpName then return parseHelp operands.head?
      else parseRest (name :: operands) general.unknown

/-- The exit code of a run. An error that the run passed on ends the program. -/
def exitOf {m : Type → Type} [Monad m] [Host m] (run : ExceptT FatalError m Number) : m Number := do
  match ← run.run with
  | .ok code => return code
  | .error e =>
    Host.print .err ("Uncaught error: " ++ e.message)
    return 1

/-- Answer a command line. The result is the exit code. -/
def run {m : Type → Type} [Monad m] [Host m] (color : Bool) (args : List Text) : m Number := do
  match parse args with
  | .error e =>
    Host.print .err e.message
    return 1
  | .ok .version =>
    Host.print .out Help.version
    return 0
  | .ok (.help topic) =>
    printLines .out (Help.lines topic)
    return 0
  | .ok .usage =>
    printLines .err (Help.lines none)
    return 1
  | .ok (.check files o) => exitOf (runCheck files { o with color })
  | .ok (.convert file outfile o) => exitOf (runConvert file outfile { o with color })
  | .ok (.rules json) =>
    listRules json color
    return 0

end CommandLine

end MetadataBlock
