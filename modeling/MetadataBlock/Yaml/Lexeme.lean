import MetadataBlock.Text.Basic

/-!
# Lexemes of YAML

A YAML source is cut into lexemes that follow each other without gaps, so that
the source is the concatenation of their texts. Two kinds of lexeme are empty:
one marks that a document begins, the other that a flow collection is left by
its indentation before it was closed.
-/

namespace MetadataBlock.Yaml

/-- The kinds of lexemes. -/
inductive LexemeKind where
  | byteOrderMark
  | documentMode
  | flowError
  | documentStart
  | documentEnd
  | newline
  | seqItem
  | explicitKey
  | mapValue
  | flowMapStart
  | flowMapEnd
  | flowSeqStart
  | flowSeqEnd
  | comma
  | space
  | comment
  | directive
  | anchorRef
  | anchor
  | tag
  | plain
  | singleQuoted
  | doubleQuoted
  | blockHeader
  /-- Text that is no lexeme, or stands where none of its kind may stand. -/
  | error (message : Text)
  deriving DecidableEq, Inhabited

namespace LexemeKind

/-- The name of a kind as messages use it. -/
def name : LexemeKind → Text
  | byteOrderMark => "byte-order-mark"
  | documentMode => "doc-mode"
  | flowError => "flow-error-end"
  | documentStart => "doc-start"
  | documentEnd => "doc-end"
  | newline => "newline"
  | seqItem => "seq-item-ind"
  | explicitKey => "explicit-key-ind"
  | mapValue => "map-value-ind"
  | flowMapStart => "flow-map-start"
  | flowMapEnd => "flow-map-end"
  | flowSeqStart => "flow-seq-start"
  | flowSeqEnd => "flow-seq-end"
  | comma => "comma"
  | space => "space"
  | comment => "comment"
  | directive => "directive-line"
  | anchorRef => "alias"
  | anchor => "anchor"
  | tag => "tag"
  | plain => "scalar"
  | singleQuoted => "single-quoted-scalar"
  | doubleQuoted => "double-quoted-scalar"
  | blockHeader => "block-scalar-header"
  | error _ => "error"

/-- Space, comments and line ends, which carry no content. -/
def isFiller : LexemeKind → Bool
  | space | comment | newline => true
  | _ => false

/-- Scalars that may stand in flow style, and references to anchors. -/
def isFlowScalar : LexemeKind → Bool
  | anchorRef | plain | singleQuoted | doubleQuoted => true
  | _ => false

/-- The kind that a lexeme's first unit decides. -/
def ofFirst (u : UInt16) (source : Text) : LexemeKind :=
  if u == 0x20 || u == 0x09 then space
  else if u == Text.unit '#' then comment
  else if u == Text.unit '%' then directive
  else if u == Text.unit '*' then anchorRef
  else if u == Text.unit '&' then anchor
  else if u == Text.unit '!' then tag
  else if u == 0x27 then singleQuoted
  else if u == 0x22 then doubleQuoted
  else if u == Text.unit '|' || u == Text.unit '>' then blockHeader
  else error ("Not a YAML token: " ++ source)

/-- The kind of a lexeme of one unit. -/
def ofUnit (u : UInt16) : LexemeKind :=
  if u == Text.byteOrderMark then byteOrderMark
  else if u == Text.lineFeed then newline
  else if u == Text.unit '-' then seqItem
  else if u == Text.unit '?' then explicitKey
  else if u == Text.unit ':' then mapValue
  else if u == 0x7B then flowMapStart
  else if u == 0x7D then flowMapEnd
  else if u == Text.unit '[' then flowSeqStart
  else if u == Text.unit ']' then flowSeqEnd
  else if u == Text.unit ',' then comma
  else ofFirst u [u]

/-- The kind of any lexeme that is not a plain scalar. -/
def ofSource (source : Text) : LexemeKind :=
  match source with
  | [] => newline
  | [u] => ofUnit u
  | u :: _ =>
    if source == "---" then documentStart
    else if source == "..." then documentEnd
    else if source == [0x0D, 0x0A] then newline
    else ofFirst u source

end LexemeKind

/-- A lexeme before its place is known. -/
structure Piece where
  kind : LexemeKind
  source : Text
  deriving DecidableEq, Inhabited

/-- A lexeme with its place. -/
structure Lexeme where
  kind : LexemeKind
  /-- Units of the source before it. -/
  offset : Nat
  /-- The indentation that is in force at it. -/
  indent : Nat
  source : Text
  deriving DecidableEq, Inhabited

/-- The offset behind a lexeme. -/
def Lexeme.stop (t : Lexeme) : Nat :=
  t.offset + t.source.length

/-- Is one of the lexemes of a kind? -/
def includesKind (ts : List Lexeme) (kind : LexemeKind) : Bool :=
  ts.any (·.kind == kind)

end MetadataBlock.Yaml
