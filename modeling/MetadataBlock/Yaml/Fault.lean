import MetadataBlock.Data.Json

/-!
# Faults in YAML sources

A fault is reported with the line and column of the place where it was noticed.
-/

namespace MetadataBlock.Yaml

/-- A collection in flow style. -/
inductive FlowKind where
  | map
  | seq
  deriving DecidableEq

namespace FlowKind

def text : FlowKind → Text
  | map => "flow map"
  | seq => "flow sequence"

/-- The name at the start of a sentence. -/
def title : FlowKind → Text
  | map => "Flow map"
  | seq => "Flow sequence"

/-- The closing bracket. -/
def closing : FlowKind → Text
  | map => "\x7d"
  | seq => "]"

end FlowKind

/-- What can be wrong with a YAML source. -/
inductive FaultKind where
  | misplaced (message source : Text)
  | unexpectedToken (name : Text)
  | unexpectedAtNodeEnd (name : Text)
  | unexpectedIn (source place : Text)
  | badToken (message : Text)
  | spaceAfterProperty
  | tabAsIndent
  | spaceBeforeComment
  | twoAnchors
  | twoTags
  | propertyBeforeIndicator (source : Text)
  | aliasWithProperties
  | emptyAlias
  | emptyAnchor
  | sequenceAsKey
  | mapColumn
  | multilineKey
  | duplicateKey
  | nestedMapping
  | longKey
  | keyWithoutValue
  | trailingMapComment
  | sequenceColumn
  | missingDash
  | newlineAfterSequenceProperty
  | emptyItem (kind : FlowKind)
  | missingComma (kind : FlowKind)
  | missingColonSpace (kind : FlowKind)
  | missingCommaOrColon (kind : FlowKind)
  | multilineFlowKey
  | longFlowKey
  | blockInFlow
  | unclosedFlow (kind : FlowKind)
  | outdentedFlow (kind : FlowKind)
  | badPlainStart (what : Text)
  | unclosedSingleQuote
  | unclosedDoubleQuote
  | badEscape (raw : Text)
  | badBlockHeader (source : Text)
  | headerToken (name : Text)
  | missingIndentIndicator
  | unindentedBlockText
  | outdentedBlockText (explicit : Bool)
  | invalidTag (source : Text)
  | verbatimTag (source : Text)
  | unclosedTag
  | tagWithoutSuffix (source : Text)
  | malformedTagSuffix
  | unresolvedHandle (source : Text)
  | badTimestamp
  | setWithValues
  | setOfNoMap
  | tagDirectiveParts
  | yamlDirectiveParts
  | unsupportedVersion (version : Text)
  | blockOnMarkerLine
  | missingMarker
  | missingStartMarker
  | endWithoutDocument
  | severalDocuments
  deriving DecidableEq

/-- The message of a fault, without its place. -/
def FaultKind.message : FaultKind → Text
  | misplaced message source =>
    if source.isEmpty then message else message ++ ": " ++ Json.string source
  | unexpectedToken name => "Unexpected " ++ name ++ " token"
  | unexpectedAtNodeEnd name => "Unexpected " ++ name ++ " at node end"
  | unexpectedIn source place => "Unexpected " ++ source ++ " in " ++ place
  | badToken message => message
  | spaceAfterProperty => "Tags and anchors must be separated from the next token by white space"
  | tabAsIndent => "Tabs are not allowed as indentation"
  | spaceBeforeComment => "Comments must be separated from other tokens by white space characters"
  | twoAnchors => "A node can have at most one anchor"
  | twoTags => "A node can have at most one tag"
  | propertyBeforeIndicator source => "Anchors and tags must be after the " ++ source ++ " indicator"
  | aliasWithProperties => "An alias node must not specify any properties"
  | emptyAlias => "Alias cannot be an empty string"
  | emptyAnchor => "Anchor cannot be an empty string"
  | sequenceAsKey => "A block sequence may not be used as an implicit map key"
  | mapColumn => "All mapping items must start at the same column"
  | multilineKey => "Implicit keys need to be on a single line"
  | duplicateKey => "Map keys must be unique"
  | nestedMapping => "Nested mappings are not allowed in compact mappings"
  | longKey =>
    "The : indicator must be at most 1024 chars after the start of an implicit block mapping key"
  | keyWithoutValue => "Implicit map keys need to be followed by map values"
  | trailingMapComment => "Map comment with trailing content"
  | sequenceColumn => "All sequence items must start at the same column"
  | missingDash => "Sequence item without - indicator"
  | newlineAfterSequenceProperty => "Missing newline after block sequence props"
  | emptyItem kind => "Unexpected empty item in " ++ kind.text
  | missingComma kind => "Missing , between " ++ kind.text ++ " items"
  | missingColonSpace kind => "Missing space after : in " ++ kind.text
  | missingCommaOrColon kind => "Missing , or : between " ++ kind.text ++ " items"
  | multilineFlowKey => "Implicit keys of flow sequence pairs need to be on a single line"
  | longFlowKey =>
    "The : indicator must be at most 1024 chars after the start of an implicit flow sequence key"
  | blockInFlow => "Block collections are not allowed within flow collections"
  | unclosedFlow kind => kind.title ++ " must end with a " ++ kind.closing
  | outdentedFlow kind =>
    kind.title ++ " in block collection must be sufficiently indented and end with a " ++ kind.closing
  | badPlainStart what => "Plain value cannot start with " ++ what
  | unclosedSingleQuote => "Missing closing 'quote"
  | unclosedDoubleQuote => "Missing closing \"quote"
  | badEscape raw => "Invalid escape sequence " ++ raw
  | badBlockHeader source => "Block scalar header includes extra characters: " ++ source
  | headerToken name => "Unexpected token in block scalar header: " ++ name
  | missingIndentIndicator =>
    "Block scalars with more-indented leading empty lines must use an explicit indentation indicator"
  | unindentedBlockText => "Block scalar values in collections must be indented"
  | outdentedBlockText explicit =>
    "Block scalar lines must not be less indented than their "
      ++ if explicit then "explicit indentation indicator" else "first line"
  | invalidTag source => "Not a valid tag: " ++ source
  | verbatimTag source => "Verbatim tags aren't resolved, so " ++ source ++ " is invalid."
  | unclosedTag => "Verbatim tags must end with a >"
  | tagWithoutSuffix source => "The " ++ source ++ " tag has no suffix"
  | malformedTagSuffix => "URIError: URI malformed"
  | unresolvedHandle source => "Could not resolve tag: " ++ source
  | badTimestamp => "!!timestamp expects a date, starting with yyyy-mm-dd"
  | setWithValues => "Set items must all have null values"
  | setOfNoMap => "Expected a mapping for this tag"
  | tagDirectiveParts => "%TAG directive should contain exactly two parts"
  | yamlDirectiveParts => "%YAML directive should contain exactly one part"
  | unsupportedVersion version => "Unsupported YAML version " ++ version
  | blockOnMarkerLine => "Block collection cannot start on same line with directives-end marker"
  | missingMarker => "Missing directives-end indicator line"
  | missingStartMarker => "Missing directives-end/doc-start indicator line"
  | endWithoutDocument => "Unexpected doc-end without preceding document"
  | severalDocuments => "Source contains multiple documents; please use YAML.parseAllDocuments()"

/-- A fault at an offset of the source. -/
structure Fault where
  kind : FaultKind
  offset : Nat
  deriving DecidableEq

/-- The offsets at which lines begin, from an offset on. -/
def lineStartsFrom (offset : Nat) : Text → List Nat
  | [] => []
  | u :: rest =>
    if u == Text.lineFeed then (offset + 1) :: lineStartsFrom (offset + 1) rest
    else lineStartsFrom (offset + 1) rest

/-- The offsets at which the lines of a source begin. -/
def lineStarts (source : Text) : List Nat :=
  0 :: lineStartsFrom 0 source

/-- The line and the column of an offset, from 1. -/
def lineColumn (starts : List Nat) (offset : Nat) : Nat × Nat :=
  let before := starts.takeWhile (· ≤ offset)
  (before.length, offset - before.getLastD 0 + 1)

namespace Fault

/-- Does the message go on with the line in question? On the first line only if there
is something to be seen in it. -/
def showsLine (source : Text) (line : Nat) : Bool :=
  1 < line
    ||
    let first := ((Text.firstLine source).reverse.dropWhile (· == Text.carriageReturn)).reverse
    80 < first.length || first.any (· != Text.space)

/-- The first line of the full message, with the place. -/
def text (source : Text) (f : Fault) : Text :=
  let (line, column) := lineColumn (lineStarts source) f.offset
  let ending : Text := if showsLine source line then ":" else []
  Text.firstLine
    (f.kind.message ++ " at line " ++ Text.ofNat line ++ ", column " ++ Text.ofNat column ++ ending)

end Fault

end MetadataBlock.Yaml
