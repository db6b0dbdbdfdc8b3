import MetadataBlock.Lint.Violation

/-!
# Rules

A rule looks at one input and reports the violations that it finds, at the severity
that it is run with and under its own name. It does not see what other rules found.
-/

namespace MetadataBlock

/-- What a rule looks at. -/
inductive Scope where
  /-- The list of section keywords. -/
  | topLevel
  /-- The content of one section. -/
  | block
  /-- One record of a section. -/
  | record
  deriving DecidableEq, Repr

def Scope.text : Scope → Text
  | .topLevel => "top-level"
  | .block => "block"
  | .record => "record"

/-- What a list of rules shows about a rule. -/
structure RuleInfo where
  name : RuleName
  code : Text
  scope : Scope
  defaultSeverity : Severity
  description : Text
  deriving DecidableEq

/-- A rule for inputs of a type. -/
structure Rule (ι : Type) extends RuleInfo where
  /-- The violations of an input, reported at a severity. -/
  run : Severity → ι → List Violation

/-- The tunable limits of the search for typos. -/
structure RuleSettings where
  /-- The least length of a beginning that groups names. -/
  minPrefixLength : Nat := 3
  /-- The greatest distance that counts as a typo; none counts if it is negative. -/
  typoThreshold : Int := 1
  deriving DecidableEq, Repr

/-- The section keywords of a document. -/
structure KeywordsInput where
  keywords : List Text
  position : Option Position := none

/-- One section. -/
structure BlockInput where
  keyword : Text
  block : Node
  settings : RuleSettings := {}

/-- One record of a section. -/
structure RecordInput where
  keyword : Text
  record : Mapping
  settings : RuleSettings := {}

end MetadataBlock
