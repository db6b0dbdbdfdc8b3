import MetadataBlock.Number.Total
import MetadataBlock.Yaml.Fault

/-!
# The text of scalars

A scalar that spans several lines is folded: blanks around a line end vanish, a
single line end becomes a space, and of several in a row one is dropped. In
double quotes a backslash escapes. A block scalar keeps its lines, less their
common indentation; in the folded style (`>`) neighbouring lines are joined.
-/

namespace MetadataBlock.Yaml

open Text (space tab lineFeed carriageReturn)

/-- What is read may fail with a fault. -/
abbrev Checked := Except Fault

/-- Fail at an offset. -/
def fault {α : Type} (kind : FaultKind) (offset : Nat) : Checked α :=
  .error ⟨kind, offset⟩

/-- Fail at an offset if a condition holds. -/
def faultIf (condition : Bool) (kind : FaultKind) (offset : Nat) : Checked Unit :=
  if condition then fault kind offset else .ok ()

namespace ScalarText

/-- A space or a tab. -/
def isInlineBlank (u : UInt16) : Bool :=
  u == space || u == tab

/-- The text without blanks at its start. -/
def dropBlanks (t : Text) : Text :=
  t.dropWhile isInlineBlank

/-- A line without its carriage return and the blanks before it. -/
def trimLineEnd (t : Text) : Text :=
  let t := if t.getLast? == some carriageReturn then t.dropLast else t
  (t.reverse.dropWhile isInlineBlank).reverse

/-- Fold the lines behind the first one. `sep` is what joins the next line that is not
empty: a space, or the line ends of empty lines. -/
def foldRest (sep : Text) : List Text → Text
  | [] => []
  | [last] => sep ++ dropBlanks last
  | line :: rest =>
    let line := dropBlanks (trimLineEnd line)
    if line.isEmpty then
      if sep == [lineFeed] then lineFeed :: foldRest sep rest else foldRest [lineFeed] rest
    else sep ++ line ++ foldRest [space] rest

/-- Fold the lines of a flow scalar. -/
def foldLines (t : Text) : Text :=
  match Text.splitOn lineFeed t with
  | [] => []
  | [line] => line
  | first :: rest => trimLineEnd first ++ foldRest [space] rest

/-! ## Plain scalars -/

/-- What a plain scalar may not begin with. -/
def badStart? (u : UInt16) : Option Text :=
  if u == tab then some "a tab character"
  else if u == Text.unit ',' then some "flow indicator character ,"
  else if u == Text.unit '%' then some "directive indicator character %"
  else if u == Text.unit '|' || u == Text.unit '>' then some ("block scalar indicator " ++ [u])
  else if u == Text.unit '@' || u == 0x60 then some ("reserved character " ++ [u])
  else none

/-- The text of a plain scalar. -/
def plain (source : Text) (offset : Nat) : Checked Text := do
  match source.head?.bind badStart? with
  | some what => fault (.badPlainStart what) offset
  | none => return foldLines source

/-! ## Quoted scalars -/

/-- Two single quotes in a row stand for one. -/
def collapseQuotes : Text → Text
  | [] => []
  | [u] => [u]
  | u :: v :: rest =>
    if u == Text.singleQuote && v == Text.singleQuote then u :: collapseQuotes rest
    else u :: collapseQuotes (v :: rest)

/-- The text without its first and last unit. -/
def inside (source : Text) : Text :=
  (source.drop 1).dropLast

/-- Is a quoted scalar closed by a quote? -/
def isClosed (quote : UInt16) (source : Text) : Bool :=
  source.getLast? == some quote && source.length != 1

/-- The text of a scalar in single quotes. -/
def singleQuoted (source : Text) (offset : Nat) : Checked Text := do
  faultIf (!isClosed Text.singleQuote source) .unclosedSingleQuote (offset + source.length)
  return collapseQuotes (foldLines (inside source))

/-- The unit that a one-letter escape stands for. -/
def escapedUnit? (u : UInt16) : Option UInt16 :=
  let escapes : List (Char × UInt16) :=
    [('0', 0x00), ('a', 0x07), ('b', 0x08), ('e', 0x1B), ('f', 0x0C), ('n', 0x0A), ('r', 0x0D),
     ('t', 0x09), ('v', 0x0B), ('N', 0x85), ('_', 0xA0), ('L', 0x2028), ('P', 0x2029), (' ', 0x20),
     ('"', 0x22), ('/', 0x2F), ('\\', 0x5C), ('\t', 0x09)]
  (escapes.find? fun e => Text.unit e.1 == u).map (·.2)

/-- How many hexadecimal digits a numeric escape takes. -/
def escapeLength? (u : UInt16) : Option Nat :=
  if u == Text.unit 'x' then some 2
  else if u == Text.unit 'u' then some 4
  else if u == Text.unit 'U' then some 8
  else none

/-- The number that a text of hexadecimal digits stands for. -/
def hexNumber? (t : Text) : Option Nat :=
  if t.isEmpty then none
  else t.foldlM (fun n u => (Text.hexValue? u).map (16 * n + ·)) 0

/-- The units of the code point of a numeric escape. -/
def codePoint? (length : Nat) (digits : Text) : Option Text := do
  let n ← hexNumber? digits
  if digits.length != length || 0x10FFFF < n then none
  else if n < 0x10000 then some [UInt16.ofNat n]
  else
    some [UInt16.ofNat (0xD800 + (n - 0x10000) / 0x400), UInt16.ofNat (0xDC00 + (n - 0x10000) % 0x400)]

/-- Behind a line end: the line ends of the empty lines that follow, and the rest. -/
def foldNewline : Text → Text × Text
  | [] => ([], [])
  | u :: rest =>
    if u == space || u == tab then foldNewline rest
    else if u == lineFeed then
      let (fold, rest) := foldNewline rest
      (lineFeed :: fold, rest)
    else if u == carriageReturn && rest.head? == some lineFeed then foldNewline rest
    else ([], u :: rest)

/-- Is a line end next? -/
def atNewline (t : Text) : Bool :=
  t.head? == some lineFeed
    || (t.head? == some carriageReturn && t.tail.head? == some lineFeed)

/-- The text of what stands between double quotes. The source ends with the closing
quote or what stands in its place; `offset` is where it begins. -/
def unescape : Nat → Text → Nat → Checked Text
  | 0, _, _ => .ok []
  | _, [], _ => .ok []
  | _, [_], _ => .ok []
  | fuel + 1, u :: rest, offset =>
    let following (t : Text) : Checked Text :=
      unescape fuel t (offset + (rest.length + 1 - t.length))
    if u == carriageReturn && rest.head? == some lineFeed then following rest
    else if u == lineFeed then do
      let (fold, rest) := foldNewline rest
      return (if fold.isEmpty then [space] else fold) ++ (← following rest)
    else if u == Text.backslash then
      match rest with
      | [] => .ok []
      | v :: more =>
        match escapedUnit? v, escapeLength? v with
        | some unit, _ => do return unit :: (← following more)
        | none, some length =>
          match codePoint? length (more.take length) with
          | some units => do return units ++ (← following (more.drop length))
          | none => fault (.badEscape (Text.backslash :: v :: more.take length)) offset
        | none, none =>
          if v == lineFeed then following (dropBlanks more)
          else if v == carriageReturn && more.head? == some lineFeed then
            following (dropBlanks more.tail)
          else fault (.badEscape [Text.backslash, v]) offset
    else if isInlineBlank u then
      let blanks := rest.takeWhile isInlineBlank
      let after := rest.drop blanks.length
      if atNewline after then following after
      else do return u :: blanks ++ (← following after)
    else do return u :: (← following rest)

/-- The text of a scalar in double quotes. -/
def doubleQuoted (source : Text) (offset : Nat) : Checked Text := do
  let t ← unescape source.length (source.drop 1) (offset + 1)
  faultIf (!isClosed Text.doubleQuote source) .unclosedDoubleQuote (offset + source.length)
  return t

/-! ## Block scalars -/

/-- What becomes of the line ends at the end of a block scalar. -/
inductive Chomp where
  | clip
  | strip
  | keep
  deriving DecidableEq

/-- The indicators in the header of a block scalar. -/
structure Header where
  folded : Bool
  /-- The indentation that is asked for; 0 if none is. -/
  indent : Nat
  chomp : Chomp
  /-- Where the first unit stands that is no indicator. -/
  extra : Option Nat

/-- Read the indicators behind the first unit of a header, which stand from place `i`
on. -/
def readHeader (h : Header) (chomped : Bool) (i : Nat) : Text → Header
  | [] => h
  | u :: rest =>
    if !chomped && u == Text.unit '-' then readHeader { h with chomp := .strip } true (i + 1) rest
    else if !chomped && u == Text.unit '+' then readHeader { h with chomp := .keep } true (i + 1) rest
    else if h.indent = 0 && Text.isDigit u && u != Text.unit '0' then
      readHeader { h with indent := Text.digitValue u } chomped (i + 1) rest
    else readHeader { h with extra := h.extra <|> some i } chomped (i + 1) rest

/-- The header that a source spells. -/
def Header.of (source : Text) : Header :=
  readHeader ⟨source.head? == some (Text.unit '>'), 0, .clip, none⟩ false 1 (source.drop 1)

/-- A line of a block scalar: its leading spaces and what follows them. -/
abbrev BlockLine := Text × Text

/-- Cut a line behind its leading spaces. -/
def blockLine (line : Text) : BlockLine :=
  (line.takeWhile (· == space), line.dropWhile (· == space))

/-- Is there nothing in the line but spaces? -/
def isBlankLine (line : BlockLine) : Bool :=
  line.2.isEmpty || line.2 == [carriageReturn]

/-- The indentation of the content, and the number of blank lines before it. `offset`
is where the lines begin. -/
def findIndent (explicit atRoot : Bool) (indent count offset : Nat) : List BlockLine → Checked (Nat × Nat)
  | [] => .ok (indent, 0)
  | line :: rest =>
    let width := line.1.length
    if isBlankLine line then
      findIndent explicit atRoot (if !explicit && indent < width then width else indent) (count + 1)
        (offset + width + line.2.length + 1) rest
    else do
      faultIf (width < indent) .missingIndentIndicator (offset + width)
      let indent := if explicit then indent else width
      faultIf (indent = 0 && !atRoot) .unindentedBlockText offset
      return (indent, count)

/-- Join lines of content. `sep` joins the next one, `deeper` tells whether the line
before was indented deeper than the content. -/
def joinLines (folded explicit : Bool) (indent : Nat) (sep : Text) (deeper : Bool) (offset : Nat) :
    List BlockLine → Checked Text
  | [] => .ok []
  | (spaces, content) :: rest => do
    let offset := offset + spaces.length + content.length + 1
    let crlf := content.getLast? == some carriageReturn
    let content := if crlf then content.dropLast else content
    faultIf (!content.isEmpty && spaces.length < indent) (.outdentedBlockText explicit)
      (offset - content.length - if crlf then 2 else 1)
    let line := spaces.drop indent ++ content
    if !folded then
      return sep ++ line ++ (← joinLines folded explicit indent [lineFeed] false offset rest)
    else if indent < spaces.length || content.head? == some tab then
      let sep :=
        if sep == [space] then [lineFeed]
        else if !deeper && sep == [lineFeed] then [lineFeed, lineFeed]
        else sep
      return sep ++ line ++ (← joinLines folded explicit indent [lineFeed] true offset rest)
    else if content.isEmpty then
      if sep == [lineFeed] then
        return lineFeed :: (← joinLines folded explicit indent sep deeper offset rest)
      else joinLines folded explicit indent [lineFeed] deeper offset rest
    else
      return sep ++ content ++ (← joinLines folded explicit indent [space] false offset rest)

/-- The number of lines up to the last one for which a test holds. -/
def lengthUpTo (test : BlockLine → Bool) (lines : List BlockLine) : Nat :=
  (lines.reverse.dropWhile (!test ·)).length

/-- The text of a block scalar. `parent` is the indentation of the node around it,
`offset` where its lines begin. -/
def block (h : Header) (parent : Nat) (atRoot : Bool) (source : Text) (offset : Nat) : Checked Text := do
  let lines := if source.isEmpty then [] else (Text.splitOn lineFeed source).map blockLine
  let filled := lengthUpTo (!isBlankLine ·) lines
  if filled = 0 then
    return if h.chomp == .keep && !lines.isEmpty then List.replicate (max 1 (lines.length - 1)) lineFeed
      else []
  else
    let explicit := h.indent != 0
    let (indent, leading) ←
      findIndent explicit atRoot (parent + h.indent) 0 offset (lines.take filled)
    let filled := max filled (lengthUpTo (fun l => indent < l.1.length) lines)
    let before := (lines.take leading).flatMap fun l => l.1.drop indent ++ [lineFeed]
    let start := offset + total ((lines.take leading).map fun l => l.1.length + l.2.length + 1)
    let content ← joinLines h.folded explicit indent [] false start ((lines.take filled).drop leading)
    let text := before ++ content
    match h.chomp with
    | .strip => return text
    | .clip => return text ++ [lineFeed]
    | .keep =>
      let text := text ++ (lines.drop filled).flatMap fun l => lineFeed :: l.1.drop indent
      return if text.getLast? == some lineFeed then text else text ++ [lineFeed]

end ScalarText

end MetadataBlock.Yaml
