import MetadataBlock.Number.Basic

/-!
# Errors that end a run

Defects of a document are violations. The errors here are conditions under which
a run cannot go on at all. A run reports those that it knows; any other error is passed
on.
-/

namespace MetadataBlock

/-- Why a run cannot go on. -/
inductive FatalError where
  /-- An identifier that names no rule. -/
  | unknownRule (identifier : Text) (validNames : List Text)
  /-- Settings that cannot be read or do not have the expected shape. -/
  | config (message : Text)
  | inputRead (path reason : Text)
  | outputWrite (path reason : Text)
  /-- An error that no run expects. -/
  | unexpected (name message : Text)
  deriving DecidableEq

namespace FatalError

def message : FatalError → Text
  | unknownRule identifier validNames =>
    "Could not find lint with name or id " ++ Text.quoted identifier ++ ".\nValid lint names are:\n"
      ++ Text.joinWith "\n" validNames
  | config message => message
  | inputRead path reason => "Could not read input file " ++ Text.quoted path ++ ": " ++ reason
  | outputWrite path reason => "Could not write output file " ++ Text.quoted path ++ ": " ++ reason
  | unexpected _ message => message

/-- The error that ends something that would go on forever. -/
def endless : FatalError :=
  .unexpected "RangeError" "Maximum call stack size exceeded"

end FatalError

namespace ExitCode

/-- The exit code of a run without findings. -/
def success : Number := 0

/-- The exit code of a run that found errors. -/
def violations : Number := 1

/-- The exit code of a run that could not read or write a file. -/
def inputOutput : Number := 2

/-- The exit code of a run without valid settings. -/
def configuration : Number := 3

end ExitCode

/-- The exit code that an error leads to, if it is one that a run reports. -/
def FatalError.exitCode? : FatalError → Option Number
  | unknownRule .. | config _ => some ExitCode.configuration
  | inputRead .. | outputWrite .. => some ExitCode.inputOutput
  | unexpected .. => none

end MetadataBlock
