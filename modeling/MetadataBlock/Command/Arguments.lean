import MetadataBlock.Command.Flag
import MetadataBlock.Number.Total

/-!
# Reading arguments

`Arguments.read` sorts the arguments of a command line for one command: options
that it knows, operands, and the rest from the first unknown option on. Options
that it knows are still taken from the rest, which another command reads again.

An option may be followed by its value (`-o json`), hold it behind an equals sign
(`--output=json`) or directly behind its letter (`-ojson`), and options of one
letter may share their dash (`-vv`). Behind `--` there are no options.
-/

namespace MetadataBlock

/-- The arguments of a command line as one command sees them. -/
structure Arguments where
  /-- The known options in order, each with its value; the value is empty for an
  option that takes none. -/
  given : List (Flag × Text) := []
  /-- The words in front of the first unknown option. -/
  operands : List Text := []
  /-- The first unknown option and all words behind it. -/
  unknown : List Text := []
  /-- The option that the arguments end with although it takes a value. -/
  missing? : Option Flag := none
  deriving DecidableEq, Repr

namespace Arguments

/-- Put a known option in front. -/
def consGiven (f : Flag) (value : Text) (a : Arguments) : Arguments :=
  { a with given := (f, value) :: a.given }

/-- Put a word in front, of the operands or of the unknown part. -/
def consWord (inUnknown : Bool) (word : Text) (a : Arguments) : Arguments :=
  if inUnknown then { a with unknown := word :: a.unknown }
  else { a with operands := word :: a.operands }

def dash : UInt16 := Text.unit '-'

def equalsSign : UInt16 := Text.unit '='

/-- The argument behind which there are no options. -/
def terminator : Text := [dash, dash]

/-- Does an argument look like an option? A dash alone does not. -/
def isOptionLike (arg : Text) : Bool :=
  1 < arg.length && arg.head? == some dash

/-- The option of one letter at the start of a group such as `-vv`, and the letters
behind it. -/
def leader? (known : List Flag) : Text → Option (Flag × Text)
  | d :: letter :: next :: rest =>
    if d == dash && letter != dash then
      (Flag.find? known [dash, letter]).map fun f => (f, next :: rest)
    else none
  | _ => none

/-- The option with a value behind an equals sign. -/
def assigned? (known : List Flag) (arg : Text) : Option (Flag × Text) :=
  match arg.dropWhile (· != equalsSign) with
  | [] => none
  | _ :: value =>
    match Flag.find? known (arg.takeWhile (· != equalsSign)) with
    | some f => if f.takesValue && terminator.isPrefixOf arg then some (f, value) else none
    | none => none

/-- How much there is to read. -/
def size (args : List Text) : Nat :=
  total (args.map fun arg => arg.length + 1)

theorem leader?_length {known : List Flag} {arg tail : Text} {f : Flag}
    (h : leader? known arg = some (f, tail)) : tail.length + 2 = arg.length := by
  unfold leader? at h
  split at h
  · split at h
    · simp only [Option.map_eq_some_iff, Prod.mk.injEq] at h
      obtain ⟨_, _, _, rfl⟩ := h
      rfl
    · cases h
  · cases h

/-- Sort arguments for a command that knows some options. -/
def read (known : List Flag) (inUnknown : Bool) (args : List Text) : Arguments :=
  match args with
  | [] => {}
  | arg :: rest =>
    if arg == terminator then
      if inUnknown then { unknown := arg :: rest } else { operands := rest }
    else if !isOptionLike arg then
      (read known inUnknown rest).consWord inUnknown arg
    else
      match Flag.find? known arg with
      | some f =>
        if f.takesValue then
          match rest with
          | [] => { missing? := some f }
          | value :: rest => (read known inUnknown rest).consGiven f value
        else (read known inUnknown rest).consGiven f []
      | none =>
        match _h : leader? known arg with
        | some (f, tail) =>
          if f.takesValue then (read known inUnknown rest).consGiven f tail
          else (read known inUnknown ((dash :: tail) :: rest)).consGiven f []
        | none =>
          match assigned? known arg with
          | some (f, value) => (read known inUnknown rest).consGiven f value
          | none => (read known true rest).consWord true arg
termination_by size args
decreasing_by all_goals grind [size, total_cons, leader?_length]

end Arguments

end MetadataBlock
