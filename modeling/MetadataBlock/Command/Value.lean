import MetadataBlock.Number.Rounding

/-!
# Values of options

Counts are runs of decimal digits, and rule identifiers come in lists separated
by commas.
-/

namespace MetadataBlock

/-- Why a numeral does not count anything. -/
inductive CountError where
  | notCount
  | notPositive
  deriving DecidableEq, Repr

namespace CountError

def message : CountError → Text
  | notCount => "Expected a non-negative integer."
  | notPositive => "Expected a positive integer."

end CountError

/-- The count that a run of decimal digits spells. -/
def parseCount (value : Text) : Except CountError Number :=
  if !value.isEmpty && value.all Text.isDigit then .ok (.ofInteger (Text.natOfDigits value))
  else .error .notCount

/-- The count that a run of decimal digits spells, which has to be at least one. -/
def parsePositiveCount (value : Text) : Except CountError Number := do
  let n ← parseCount value
  if n.atLeast 1 then return n else throw .notPositive

/-- The rule identifiers in a list separated by commas. -/
def splitIdentifiers (value : Text) : List Text :=
  ((Text.splitOn (Text.unit ',') value).map Text.trim).filter (!·.isEmpty)

end MetadataBlock
