import MetadataBlock.Text.Basic

/-!
# Commands and their options

The words that the command line consists of: commands, and options with a short
form, a long form, and a name for their value if they take one.
-/

namespace MetadataBlock

/-- The commands. -/
inductive Command where
  | check
  | convert
  | rules
  deriving DecidableEq, Repr

/-- The options of all commands, apart from the one that asks for help. -/
inductive Flag where
  | version
  | config
  | error
  | warn
  | skip
  | warningExitCode
  | minPrefixLength
  | typoThreshold
  | verbose
  | outputFormat
  | outfile
  deriving DecidableEq, Repr

namespace Flag

/-- The short form of an option, if it has one. -/
def short? : Flag → Option Text
  | version => some "-V"
  | config => some "-c"
  | error => some "-e"
  | warn => some "-w"
  | skip => some "-s"
  | verbose => some "-v"
  | outputFormat => some "-o"
  | warningExitCode | minPrefixLength | typoThreshold | outfile => none

/-- The long form of an option. -/
def long : Flag → Text
  | version => "--version"
  | config => "--config"
  | error => "--error"
  | warn => "--warn"
  | skip => "--skip"
  | warningExitCode => "--warning-exit-code"
  | minPrefixLength => "--min-prefix-length"
  | typoThreshold => "--typo-threshold"
  | verbose => "--verbose"
  | outputFormat => "--output"
  | outfile => "--outfile"

/-- What the value of an option is called; an option without a value has none. -/
def valueName? : Flag → Option Text
  | version | verbose => none
  | config | outfile => some "path"
  | error | warn | skip => some "rules"
  | warningExitCode => some "code"
  | minPrefixLength | typoThreshold => some "n"
  | outputFormat => some "format"

def takesValue (f : Flag) : Bool :=
  f.valueName?.isSome

/-- All forms of an option with the name of its value. -/
def usage (f : Flag) : Text :=
  (match f.short? with
    | some short => short ++ ", "
    | none => []) ++ f.long ++
  (match f.valueName? with
    | some name => " <" ++ name ++ ">"
    | none => [])

/-- The option among some that an argument spells exactly. -/
def find? (known : List Flag) (arg : Text) : Option Flag :=
  known.find? fun f => f.short? == some arg || f.long == arg

/-- The options in front of any command. -/
def general : List Flag := [version, config]

/-- The options about linting. -/
def linting : List Flag :=
  [error, warn, skip, warningExitCode, minPrefixLength, typoThreshold, verbose]

end Flag

/-- The word that asks for help in the place of a command. -/
def helpName : Text := "help"

/-- The long form of the option that asks for help. -/
def helpLong : Text := "--help"

/-- Does an argument ask for help? -/
def asksForHelp (arg : Text) : Bool :=
  arg == helpLong || arg == "-h"

namespace Command

def name : Command → Text
  | check => "check"
  | convert => "convert"
  | rules => "rules"

/-- All commands. -/
def all : List Command := [check, convert, rules]

/-- The command of a name. -/
def ofName? (name : Text) : Option Command :=
  all.find? fun c => c.name == name

/-- The options of a command. -/
def flags : Command → List Flag
  | check => Flag.linting ++ [.outputFormat]
  | convert => Flag.linting ++ [.outfile]
  | rules => [.outputFormat]

end Command

end MetadataBlock
