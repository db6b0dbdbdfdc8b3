import MetadataBlock.Document.Source
import MetadataBlock.Lint.Validation
import MetadataBlock.Table.Reader
import MetadataBlock.Yaml.Reader

/-!
# Linting a source

A source is read as the extension of its path says, and its document is
validated. The findings of the reader come first. A source that cannot be read to an
end has no findings.
-/

namespace MetadataBlock

/-- What linting found in one file. -/
structure FileResult where
  path : Text
  violations : List Violation
  longestRow : Nat := 0
  deriving DecidableEq

/-- A linted source with its document, if it has one. -/
structure LintedSource extends FileResult where
  document : Option Document
  /-- Reading the source goes on forever. -/
  endless : Bool := false

/-- Read a source of a kind. -/
def readSource (kind : SourceKind) (source : Text) : Reading :=
  match kind with
  | .yaml => Yaml.read source
  | .tabular => Table.read source

/-- What reading a source at a path gives, what is to be said about the path
included. -/
def readAt (path source : Text) : Reading :=
  match SourceKind.guess path with
  | (none, violations) => { document := none, violations }
  | (some kind, violations) =>
    let reading := readSource kind source
    { reading with violations := violations ++ reading.violations }

/-- Read and validate a source. -/
def lintSource (path source : Text) (options : LintOptions) : LintedSource :=
  let reading := readAt path source
  match reading.document with
  | none =>
    { path, violations := reading.violations, document := none, endless := reading.endless }
  | some document =>
    let validation := validate document options
    { path
      violations := reading.violations ++ validation.violations
      longestRow := validation.longestRow
      document }

/-- The steps of linting a source. -/
def traceSource (path source : Text) (options : LintOptions) : List TraceLine :=
  ⟨1, "Checking input file: " ++ path⟩
    :: match (readAt path source).document with
      | none => []
      | some document => traceValidation document options

end MetadataBlock
