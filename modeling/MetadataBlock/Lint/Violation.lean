import MetadataBlock.Document.Basic

/-!
# Violations

What a check reports: how severe it is, which check found it, a message, and
where. `Level.rank` orders the levels, `mostSevere` is the level of a list.
-/

namespace MetadataBlock

/-- The severity of one violation. -/
inductive Severity where
  | warning
  | error
  deriving DecidableEq, Repr

/-- The severity of a file or a run; `none` if nothing was reported. -/
inductive Level where
  | none
  | warning
  | error
  deriving DecidableEq, Repr

namespace Severity

def text : Severity → Text
  | warning => "warning"
  | error => "error"

def level : Severity → Level
  | warning => .warning
  | error => .error

end Severity

namespace Level

def text : Level → Text
  | none => "none"
  | warning => "warning"
  | error => "error"

/-- A greater rank is more severe. -/
def rank : Level → Nat
  | none => 0
  | warning => 1
  | error => 2

/-- How two levels compare, the more severe one being greater. -/
def compareRank (a b : Level) : Ordering :=
  Ord.compare a.rank b.rank

/-- The more severe of two levels, the first if they are equally severe. -/
def worse (a b : Level) : Level :=
  if b.compareRank a = .gt then b else a

end Level

/-- The names of the rules. -/
inductive RuleName where
  | keywordsValid
  | keywordsUnique
  | blockIsList
  | uniqueNames
  | uniqueTitles
  | namePrefixTypos
  | keysValid
  | requiredKeysPresent
  | noSubstructures
  | noTrailingSpaces
  | nestedCompoundMetadata
  | nestedCompoundMetadataControlledVocab
  deriving DecidableEq, Repr

namespace RuleName

def text : RuleName → Text
  | keywordsValid => "keywords_valid"
  | keywordsUnique => "keywords_unique"
  | blockIsList => "block_is_list"
  | uniqueNames => "unique_names"
  | uniqueTitles => "unique_titles"
  | namePrefixTypos => "name_prefix_typos"
  | keysValid => "keys_valid"
  | requiredKeysPresent => "required_keys_present"
  | noSubstructures => "no_substructures"
  | noTrailingSpaces => "no_trailing_spaces"
  | nestedCompoundMetadata => "nested_compound_metadata"
  | nestedCompoundMetadataControlledVocab => "nested_compound_metadata_controlled_vocab"

end RuleName

/-- The checks that are part of reading a file. They cannot be overridden. -/
inductive ReaderCheck where
  | guessInputType
  | parseDocument
  | identifyBreakPoints
  | tabularLayout
  deriving DecidableEq, Repr

def ReaderCheck.text : ReaderCheck → Text
  | .guessInputType => "guess_input_type"
  | .parseDocument => "parse_document"
  | .identifyBreakPoints => "identify_break_points"
  | .tabularLayout => "tabular_layout"

/-- What a violation was found by. -/
inductive Origin where
  | rule (name : RuleName)
  | reader (check : ReaderCheck)
  deriving DecidableEq, Repr

def Origin.text : Origin → Text
  | .rule name => name.text
  | .reader check => check.text

/-- One reported defect. -/
structure Violation where
  severity : Severity
  origin : Origin
  message : Text
  line : Option Nat := none
  column : Option Nat := none
  deriving DecidableEq

namespace Violation

def isError (v : Violation) : Bool :=
  v.severity == .error

def isWarning (v : Violation) : Bool :=
  v.severity == .warning

/-- A violation at a place, if the place is known. -/
def atPosition (severity : Severity) (origin : Origin) (message : Text) (position : Option Position) :
    Violation :=
  ⟨severity, origin, message, position.map (·.line), position.bind (·.column)⟩

/-- A part of a place, if known, followed by a space. -/
def placeText (name : Text) : Option Nat → Text
  | none => []
  | some n => name ++ " " ++ Text.ofNat n ++ " "

/-- The violation on one line: severity, place, check and message. -/
def format (v : Violation) : Text :=
  "[" ++ Text.upperAscii v.severity.text ++ "] " ++ placeText "line" v.line
    ++ placeText "column" v.column ++ v.origin.text ++ ": " ++ v.message

end Violation

/-- The most severe level among violations. -/
def mostSevere (violations : List Violation) : Level :=
  violations.foldl (fun worst v => worst.worse v.severity.level) .none

end MetadataBlock
