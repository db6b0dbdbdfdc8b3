import MetadataBlock.Lint.Violation

/-!
# The outcome of reading
-/

namespace MetadataBlock

/-- The outcome of reading a source. Without a document the violations say why, unless
reading does not come to an end. -/
structure Reading where
  document : Option Document
  violations : List Violation
  /-- Reading goes on forever; there is neither a document nor anything to report. -/
  endless : Bool := false

end MetadataBlock
