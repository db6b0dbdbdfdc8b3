import MetadataBlock.Host.Path
import MetadataBlock.Lint.Violation

/-!
# Kinds of sources

The extension of a file, in any letter case, decides how it is read.
-/

namespace MetadataBlock

/-- How a source is read. -/
inductive SourceKind where
  | yaml
  | tabular
  deriving DecidableEq, Repr

namespace SourceKind

/-- A warning or an error about the extension of a file. -/
def guessViolation (severity : Severity) (message : Text) : Violation :=
  { severity, origin := .reader .guessInputType, message }

/-- The kind of a file, and what is to be said about the choice. -/
def guess (path : Text) : Option SourceKind × List Violation :=
  let ext := Text.lowerAscii (Path.extension path)
  if ext == ".tsv" then (some .tabular, [])
  else if ext == ".csv" then
    (some .tabular,
      [guessViolation .warning ("Reading " ++ Text.quoted path
        ++ " as tab-separated values. Other separators are not supported.")])
  else if ext == ".yml" || ext == ".yaml" then (some .yaml, [])
  else
    (none,
      [guessViolation .error ("Cannot determine the input type of " ++ Text.quoted path
        ++ ". Expected a .tsv, .csv, .yml or .yaml file.")])

end SourceKind

end MetadataBlock
