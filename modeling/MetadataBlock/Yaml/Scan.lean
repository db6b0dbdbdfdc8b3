import MetadataBlock.Yaml.Lexeme

/-!
# Scanning YAML

`scan` cuts a source into lexemes. What a unit means depends on the context: the
start of a line, the inside of a block node or of a flow collection, a quoted, a
plain or a block scalar. A scalar goes on over a line end as long as the next
line is indented deeper than its parent.
-/

namespace MetadataBlock.Yaml

/-- The state of a scanner between two lexemes. -/
structure Scanner where
  source : Array UInt16
  pos : Nat := 0
  /-- The indentation that a block scalar's header asks for, less one. -/
  blockIndent : Option Nat := none
  /-- Does the block scalar keep the line ends at its end? -/
  blockKeep : Bool := false
  /-- Has a flow key just been closed, so that `:` needs no space behind it? -/
  flowKey : Bool := false
  /-- How many flow collections are open. -/
  flowLevel : Nat := 0
  /-- The least indentation of a line that continues the present node. -/
  indentNext : Nat := 0
  /-- The indentation of the present line. -/
  indentValue : Nat := 0
  /-- The lexemes so far, last first. -/
  pieces : List Piece := []

namespace Scanner

/-- What the scanner does next. -/
inductive Mode where
  | stream
  | blockStart
  | document
  | flow
  deriving DecidableEq

/-- The unit at a place of the source. -/
def at? (s : Scanner) (i : Nat) : Option UInt16 :=
  s.source[i]?

/-- The unit some places ahead. -/
def ahead? (s : Scanner) (n : Nat) : Option UInt16 :=
  s.source[s.pos + n]?

/-- Is the unit this character? -/
def is (u : Option UInt16) (c : Char) : Bool :=
  u == some (Text.unit c)

/-- Is the unit one of these characters? -/
def isOneOf (u : Option UInt16) (chars : Text) : Bool :=
  match u with
  | some u => chars.contains u
  | none => false

/-- The end of the source, a blank or a line end. -/
def isEmpty (u : Option UInt16) : Bool :=
  match u with
  | none => true
  | some u => u == 0x20 || u == 0x0A || u == 0x0D || u == 0x09

def isSpace (u : Option UInt16) : Bool :=
  u == some 0x20

def isTab (u : Option UInt16) : Bool :=
  u == some 0x09

def isLineFeed (u : Option UInt16) : Bool :=
  u == some 0x0A

def isReturn (u : Option UInt16) : Bool :=
  u == some 0x0D

/-- The characters that structure flow collections. -/
def isFlowIndicator (u : Option UInt16) : Bool :=
  isOneOf u ",[]\x7b\x7d"

/-- Does the unit end an anchor or a reference to one? -/
def endsAnchor (u : Option UInt16) : Bool :=
  isEmpty u || isFlowIndicator u

/-- The first place from `i` on where a test holds, or the end of the source. -/
def findFrom (s : Scanner) (i : Nat) (test : UInt16 → Bool) : Nat :=
  if h : i < s.source.size then
    if test s.source[i] then i else findFrom s (i + 1) test
  else i
termination_by s.source.size - i

/-- The first place of a unit from `i` on. -/
def indexOf? (s : Scanner) (u : UInt16) (i : Nat) : Option Nat :=
  let j := s.findFrom i (· == u)
  if j < s.source.size then some j else none

/-- The text between two places. -/
def slice (s : Scanner) (i j : Nat) : Text :=
  (s.source.extract i j).toList

/-- Is there a text at a place? -/
def hasAt (s : Scanner) (i : Nat) (t : Text) : Bool :=
  s.slice i (i + t.length) == t

/-- Is there a document marker, `---` or `...`, at a place? -/
def atMarker (s : Scanner) (i : Nat) : Bool :=
  (s.hasAt i "---" || s.hasAt i "...") && isEmpty (s.at? (i + 3))

/-- The end of the present line, without its line end. -/
def lineStop (s : Scanner) : Nat :=
  match s.indexOf? Text.lineFeed s.pos with
  | none => s.source.size
  | some stop => if 0 < stop && isReturn (s.at? (stop - 1)) then stop - 1 else stop

/-! ## Taking lexemes -/

/-- Emit an empty lexeme. -/
def mark (s : Scanner) (kind : LexemeKind) : Scanner :=
  { s with pieces := ⟨kind, []⟩ :: s.pieces }

/-- Take the text up to a place, if any. -/
def takeTo (s : Scanner) (i : Nat) : Scanner :=
  let t := s.slice s.pos i
  if t.isEmpty then s
  else { s with pos := s.pos + t.length, pieces := ⟨.ofSource t, t⟩ :: s.pieces }

/-- Take a number of units. -/
def take (s : Scanner) (n : Nat) : Scanner :=
  s.takeTo (s.pos + n)

/-- Take the text up to a place as a plain or block scalar, even if it is empty. -/
def takeScalarTo (s : Scanner) (i : Nat) : Scanner :=
  let t := s.slice s.pos i
  { s with pos := s.pos + t.length, pieces := ⟨.plain, t⟩ :: s.pieces }

/-- Take the spaces ahead, or the spaces and tabs. -/
def takeSpaces (s : Scanner) (withTabs : Bool) : Scanner :=
  s.takeTo (s.findFrom s.pos fun u => !(u == 0x20 || (withTabs && u == 0x09)))

/-- Take a line end, if there is one. -/
def takeNewline (s : Scanner) : Scanner :=
  if isLineFeed (s.ahead? 0) then s.take 1
  else if isReturn (s.ahead? 0) && isLineFeed (s.ahead? 1) then s.take 2
  else s

/-- Take the rest of the present line. -/
def takeLine (s : Scanner) : Scanner :=
  s.takeTo s.lineStop

/-- Take units until a test holds. -/
def takeUntil (s : Scanner) (test : Option UInt16 → Bool) : Scanner :=
  s.takeTo (s.findFrom s.pos fun u => test (some u))

/-- May the unit stand in a tag? -/
def isTagUnit (u : UInt16) : Bool :=
  Text.isDigit u || Text.isLetter u || (Text.ofString "-#;/?:@&=+$_.!~*'()").contains u

/-- The end of the tag whose units begin at a place. -/
def tagStop (s : Scanner) : Nat → Nat → Nat
  | 0, i => i
  | fuel + 1, i =>
    match s.at? i with
    | none => i
    | some u =>
      if isTagUnit u then tagStop s fuel (i + 1)
      else if u == Text.unit '%' && ((s.at? (i + 1)).bind Text.hexValue?).isSome
          && ((s.at? (i + 2)).bind Text.hexValue?).isSome then
        tagStop s fuel (i + 3)
      else i

/-- Take a tag: `!<…>` or a run of tag units. -/
def takeTag (s : Scanner) : Scanner :=
  if is (s.ahead? 1) '<' then
    let i := s.findFrom (s.pos + 2) fun u => isEmpty (some u) || u == Text.unit '>'
    s.takeTo (if is (s.at? i) '>' then i + 1 else i)
  else s.takeTo (s.tagStop s.source.size (s.pos + 1))

/-- Take the tags, anchors and indicators ahead. -/
def takeIndicators : Nat → Scanner → Scanner
  | 0, s => s
  | fuel + 1, s =>
    let u := s.ahead? 0
    if is u '!' then takeIndicators fuel (s.takeTag.takeSpaces true)
    else if is u '&' then takeIndicators fuel ((s.takeUntil endsAnchor).takeSpaces true)
    else if isOneOf u "-?:" then
      let next := s.ahead? 1
      let inFlow := 0 < s.flowLevel
      if isEmpty next || (inFlow && isFlowIndicator next) then
        let s := if inFlow then { s with flowKey := false } else { s with indentNext := s.indentValue + 1 }
        takeIndicators fuel ((s.take 1).takeSpaces true)
      else s
    else s

/-! ## Scalars -/

/-- Where a scalar continues on the line that begins at a place, if it does. -/
def continueScalar? (s : Scanner) (i : Nat) : Option Nat :=
  if 0 < s.indentNext then
    let j := s.findFrom i (· != 0x20)
    if isReturn (s.at? j) && isLineFeed (s.at? (j + 1)) then some (j + 1)
    else if isLineFeed (s.at? j) || s.indentNext ≤ j - i then some j
    else none
  else if s.atMarker i then none
  else some i

/-- The end of the plain scalar that begins at the present place. `stop` is the end
of what is known to belong to it, `i` the place to look at. -/
def plainStop (s : Scanner) : Nat → Nat → Nat → Nat
  | 0, stop, _ => stop
  | fuel + 1, stop, i =>
    let inFlow := 0 < s.flowLevel
    match s.at? i with
    | none => stop
    | some u =>
      let next := s.at? (i + 1)
      if u == Text.unit ':' then
        if isEmpty next || (inFlow && isFlowIndicator next) then stop
        else plainStop s fuel (i + 1) (i + 1)
      else if isEmpty (some u) then
        let crlf := u == 0x0D && isLineFeed next
        let stop := if u == 0x0D && !crlf then i + 1 else stop
        let i := if crlf then i + 1 else i
        let next := s.at? (i + 1)
        if is next '#' || (inFlow && isFlowIndicator next) then stop
        else if u == 0x0A || crlf then
          match s.continueScalar? (i + 1) with
          | none => stop
          | some j => plainStop s fuel stop (max i (j - 2) + 1)
        else plainStop s fuel stop (i + 1)
      else if inFlow && isFlowIndicator (some u) then stop
      else plainStop s fuel (i + 1) (i + 1)

/-- The mode inside or outside a flow collection. -/
def nodeMode (s : Scanner) : Mode :=
  if 0 < s.flowLevel then .flow else .document

/-- Take a plain scalar. -/
def takePlain (s : Scanner) : Scanner × Mode :=
  let s := s.takeScalarTo (s.plainStop (s.source.size + 1) s.pos s.pos)
  (s, s.nodeMode)

/-- The place of the closing single quote; two quotes in a row do not close. -/
def singleQuoteStop? (s : Scanner) : Nat → Nat → Option Nat
  | 0, _ => none
  | fuel + 1, i =>
    match s.indexOf? Text.singleQuote i with
    | none => none
    | some j => if is (s.at? (j + 1)) '\'' then singleQuoteStop? s fuel (j + 2) else some j

/-- How many backslashes stand right before a place. -/
def backslashesBefore (s : Scanner) : Nat → Nat
  | 0 => 0
  | i + 1 => if s.at? i == some Text.backslash then backslashesBefore s i + 1 else 0

/-- The place of the closing double quote; one that is escaped does not close. -/
def doubleQuoteStop? (s : Scanner) : Nat → Nat → Option Nat
  | 0, _ => none
  | fuel + 1, i =>
    match s.indexOf? Text.doubleQuote i with
    | none => none
    | some j => if s.backslashesBefore j % 2 = 0 then some j else doubleQuoteStop? s fuel (j + 1)

/-- The first line feed from `i` to before `stop` behind which a scalar does not
continue. -/
def brokenAt? (s : Scanner) (stop : Nat) : Nat → Nat → Option Nat
  | 0, _ => none
  | fuel + 1, i =>
    match s.indexOf? Text.lineFeed i with
    | none => none
    | some j =>
      if stop ≤ j then none
      else
        match s.continueScalar? (j + 1) with
        | none => some j
        | some k => brokenAt? s stop fuel k

/-- Take a quoted scalar. It ends early where a line is not indented enough. -/
def takeQuoted (s : Scanner) : Scanner × Mode :=
  let n := s.source.size + 1
  let closing :=
    if is (s.ahead? 0) '\'' then s.singleQuoteStop? n (s.pos + 1) else s.doubleQuoteStop? n (s.pos + 1)
  let s :=
    match closing with
    | none => s.takeTo s.source.size
    | some stop =>
      match s.brokenAt? stop n s.pos with
      | none => s.takeTo (stop + 1)
      | some j => s.takeTo (if isReturn (s.at? (j - 1)) then j - 1 else j)
  (s, s.nodeMode)

/-- Read the indicators of a block scalar's header behind its first unit. -/
def readBlockHeader : List UInt16 → Option Nat × Bool → Option Nat × Bool
  | [], r => r
  | u :: rest, (indent, keep) =>
    if u == Text.unit '+' then readBlockHeader rest (indent, true)
    else if Text.isDigit u && u != Text.unit '0' then
      readBlockHeader rest (some (Text.digitValue u - 1), keep)
    else if u == Text.unit '-' then readBlockHeader rest (indent, keep)
    else (indent, keep)

/-- Take a block scalar's header. -/
def takeBlockHeader (s : Scanner) : Scanner :=
  let (indent, keep) := readBlockHeader (s.slice (s.pos + 1) s.lineStop) (none, false)
  { s with blockIndent := indent, blockKeep := keep }.takeUntil fun u => isEmpty u || is u '#'

/-- The last line feed among the blank lines from `i` on and the indentation of the
line behind it. -/
def leadingBlank (s : Scanner) : Nat → Nat → Nat → Nat → Nat × Nat
  | 0, lineEnd, indent, _ => (lineEnd, indent)
  | fuel + 1, lineEnd, indent, i =>
    let u := s.at? i
    if isSpace u then leadingBlank s fuel lineEnd (indent + 1) (i + 1)
    else if isLineFeed u then leadingBlank s fuel i 0 (i + 1)
    else if isReturn u && isLineFeed (s.at? (i + 1)) then leadingBlank s fuel lineEnd indent (i + 1)
    else (lineEnd, indent)

/-- The last line feed of a block scalar, given the line feed before a line of it;
the end of the source if the scalar goes on to there. -/
def blockStop (s : Scanner) : Nat → Nat → Nat
  | 0, lineEnd => lineEnd
  | fuel + 1, lineEnd =>
    match s.continueScalar? (lineEnd + 1) with
    | none => lineEnd
    | some i =>
      match s.indexOf? Text.lineFeed i with
      | none => s.source.size
      | some j => blockStop s fuel j

/-- Go back over the spaces before a place. -/
def skipSpacesBack (s : Scanner) : Nat → Nat
  | 0 => 0
  | i + 1 => if isSpace (s.at? i) then skipSpacesBack s i else i + 1

/-- Drop the blank lines at the end of a block scalar, except for those that are
indented deeper than it. -/
def dropBlankLines (s : Scanner) (indent : Nat) : Nat → Nat → Nat
  | 0, lineEnd => lineEnd
  | fuel + 1, lineEnd =>
    let stop := if 0 < lineEnd && isReturn (s.at? (lineEnd - 1)) then lineEnd - 1 else lineEnd
    let start := s.skipSpacesBack stop
    if 0 < start && isLineFeed (s.at? (start - 1)) && s.pos + 1 ≤ start && stop < start + indent + 1 then
      dropBlankLines s indent fuel (start - 1)
    else lineEnd

/-- Take the content of a block scalar, which may be empty. -/
def takeBlockText (s : Scanner) : Scanner :=
  let n := s.source.size + 2
  let (lineEnd, indent) := s.leadingBlank n (s.pos - 1) 0 s.pos
  let (s, lineEnd) :=
    if s.indentNext ≤ indent then
      let s :=
        match s.blockIndent with
        | none => { s with indentNext := indent }
        | some k => { s with indentNext := k + if s.indentNext = 0 then 1 else s.indentNext }
      (s, s.blockStop n lineEnd)
    else (s, lineEnd)
  let afterSpaces := s.findFrom (lineEnd + 1) (· != 0x20)
  let lineEnd :=
    if isTab (s.at? afterSpaces) then s.findFrom afterSpaces (fun u => !isEmpty (some u)) - 1
    else if s.blockKeep then lineEnd
    else s.dropBlankLines indent n lineEnd
  s.takeScalarTo (lineEnd + 1)

/-! ## Contexts -/

/-- Take the indicators of block nodes at the start of a line. -/
def startBlock (s : Scanner) : Scanner × Mode :=
  if isOneOf (s.ahead? 0) "-?:" && isEmpty (s.ahead? 1) then
    let before := s.pos
    let s := (s.take 1).takeSpaces true
    ({ s with indentNext := s.indentValue + 1, indentValue := s.indentValue + (s.pos - before) },
      .blockStart)
  else (s, .document)

/-- Begin a line: a document marker, or indentation. -/
def startLine (s : Scanner) : Scanner × Mode :=
  if s.atMarker s.pos then
    let mode := if is (s.ahead? 0) '-' then Mode.document else .stream
    ({ s.take 3 with indentNext := 0, indentValue := 0 }, mode)
  else
    let before := s.pos
    let s := s.takeSpaces false
    let s := { s with indentValue := s.pos - before }
    let s :=
      if s.indentValue < s.indentNext && !isEmpty (s.ahead? 1) then
        { s with indentNext := s.indentValue }
      else s
    s.startBlock

/-- The end of a directive: before a comment and the blanks that precede it. -/
def directiveLength (line : Text) : Nat :=
  let uncommented := go line.length line
  (uncommented.reverse.dropWhile fun u => u == 0x20 || u == 0x09).length
where
  /-- The text before the first `#` behind a blank. -/
  go : Nat → Text → Text
    | 0, t => t
    | fuel + 1, t =>
      match t with
      | u :: v :: rest =>
        if (u == 0x20 || u == 0x09) && v == Text.unit '#' then []
        else u :: go fuel (v :: rest)
      | t => t

/-- Is the rest of the line blank, or a comment? -/
def atLineEnd (s : Scanner) : Bool :=
  let i := s.findFrom s.pos fun u => !(u == 0x20 || u == 0x09)
  let u := s.at? i
  u.isNone || is u '#' || isLineFeed u || (isReturn u && isLineFeed (s.at? (i + 1)))

/-- Between documents: directives, comments and blank lines, then a document. -/
def stepStream (s : Scanner) : Scanner × Mode :=
  let s := if s.ahead? 0 == some Text.byteOrderMark then s.take 1 else s
  if is (s.ahead? 0) '%' then
    let line := s.slice s.pos s.lineStop
    (((s.take (directiveLength line)).takeSpaces true).takeLine, .stream)
  else if s.atLineEnd then (((s.takeSpaces true).takeLine).takeNewline, .stream)
  else (s.mark .documentMode).startLine

/-- Inside block nodes. -/
def stepDocument (s : Scanner) : Scanner × Mode :=
  let s := s.takeSpaces true
  let stop := s.lineStop
  let s := takeIndicators (s.source.size + 1) s
  let u := if s.pos < stop then s.ahead? 0 else none
  if u.isNone then s.takeNewline.startLine
  else if is u '#' then ((s.takeTo stop).takeNewline).startLine
  else if isOneOf u "\x7b[" then ({ s.take 1 with flowKey := false, flowLevel := 1 }, .flow)
  else if isOneOf u "\x7d]" then (s.take 1, .document)
  else if is u '*' then (s.takeUntil endsAnchor, .document)
  else if isOneOf u "\"'" then s.takeQuoted
  else if isOneOf u "|>" then
    let s := (s.takeBlockHeader).takeSpaces true
    ((s.takeTo stop).takeNewline).takeBlockText.startLine
  else s.takePlain

/-- Take line ends and blanks inside a flow collection. The result holds the
indentation of the last line that was begun, if any. -/
def takeFlowBlanks : Nat → Option Nat → Scanner → Scanner × Option Nat
  | 0, indent, s => (s, indent)
  | fuel + 1, indent, s =>
    let before := s.pos
    let s := s.takeNewline
    let (s, indent) :=
      if before < s.pos then
        let lineStart := s.pos
        let s := s.takeSpaces false
        let width := s.pos - lineStart
        ({ s with indentValue := width }, some width)
      else (s, indent)
    let s := s.takeSpaces true
    if before < s.pos then takeFlowBlanks fuel indent s else (s, indent)

/-- Does the line that was begun leave the flow collection? The closing bracket of
the outermost one may stand as far left as its parent. -/
def leavesFlow (s : Scanner) (indent : Option Nat) : Bool :=
  match indent with
  | none => false
  | some indent =>
    let u := if s.pos < s.lineStop then s.ahead? 0 else none
    ((indent < s.indentNext && !is u '#') || (indent = 0 && s.atMarker s.pos))
      && !(indent + 1 = s.indentNext && s.flowLevel = 1 && isOneOf u "]\x7d")

/-- Take the commas ahead. -/
def takeCommas : Nat → Scanner → Scanner
  | 0, s => s
  | fuel + 1, s =>
    if is (s.ahead? 0) ',' then
      takeCommas fuel { (s.take 1).takeSpaces true with flowKey := false }
    else s

/-- Inside a flow collection. -/
def stepFlow (s : Scanner) : Scanner × Mode :=
  let n := s.source.size + 1
  let (s, indent) := takeFlowBlanks n none s
  if s.leavesFlow indent then ({ s with flowLevel := 0 }.mark .flowError).startLine
  else
    let stop := s.lineStop
    let s := takeIndicators n (takeCommas n s)
    let u := if s.pos < stop then s.ahead? 0 else none
    if u.isNone then (s, .flow)
    else if is u '#' then (s.takeTo stop, .flow)
    else if isOneOf u "\x7b[" then
      ({ s.take 1 with flowKey := false, flowLevel := s.flowLevel + 1 }, .flow)
    else if isOneOf u "\x7d]" then
      let s := { s.take 1 with flowKey := true, flowLevel := s.flowLevel - 1 }
      (s, s.nodeMode)
    else if is u '*' then (s.takeUntil endsAnchor, .flow)
    else if isOneOf u "\"'" then { s with flowKey := true }.takeQuoted
    else if is u ':' && (s.flowKey || isEmpty (s.ahead? 1) || is (s.ahead? 1) ',') then
      (({ s with flowKey := false }.take 1).takeSpaces true, .flow)
    else { s with flowKey := false }.takePlain

/-- Take the next lexemes. -/
def step (s : Scanner) : Mode → Scanner × Mode
  | .stream => s.stepStream
  | .blockStart => s.startBlock
  | .document => s.stepDocument
  | .flow => s.stepFlow

/-- Take lexemes until the source is used up. Every lexeme takes only a few steps. -/
def run : Nat → Scanner × Mode → Scanner
  | 0, (s, _) => s
  | fuel + 1, (s, mode) => if s.pos < s.source.size then run fuel (s.step mode) else s

end Scanner

/-- The lexemes of a source in order. -/
def scan (source : Text) : List Piece :=
  (Scanner.run (8 * source.length + 8) ({ source := source.toArray }, .stream)).pieces.reverse

end MetadataBlock.Yaml
