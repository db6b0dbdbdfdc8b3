import MetadataBlock.Lint.Run

/-!
# Validating a document

The violations of a document together with the width its records need in a table.
-/

namespace MetadataBlock

/-- The outcome of validating one document. -/
structure Validation where
  violations : List Violation
  /-- The number of columns of the widest record. -/
  longestRow : Nat
  deriving DecidableEq

/-- The columns that a record of a section occupies in a table. -/
def recordWidth (keyword : Text) (record : Mapping) : Nat :=
  record.entries.length + if hasLeadingKeyColumn keyword then 1 else 0

/-- The columns of the widest record; 0 without records. -/
def Mapping.longestRow (document : Document) : Nat :=
  document.entries.foldl (fun longest e =>
    e.value.records.foldl (fun longest r => max longest (recordWidth e.key r)) longest) 0

/-- Validate a document. -/
def validate (document : Document) (options : LintOptions) : Validation :=
  ⟨lintDocument document options, document.longestRow⟩

/-- How a validation ends. -/
def traceOutcome (violations : List Violation) : TraceLine :=
  match violations with
  | [] => ⟨1, "SUCCESS!"⟩
  | vs =>
    ⟨1, "FAILURE! Detected " ++ Text.ofNat vs.length ++ " violation(s), most severe: "
      ++ (mostSevere vs).text⟩

/-- The steps of validating a document. -/
def traceValidation (document : Document) (options : LintOptions) : List TraceLine :=
  traceDocument document options ++ [traceOutcome (lintDocument document options)]

end MetadataBlock
