import MetadataBlock.Number.Total
import MetadataBlock.Yaml.Layout
import MetadataBlock.Yaml.Tag
import MetadataBlock.Yaml.Tree

/-!
# From layout to tree

`composeDocument` reads the tree of a document off its layout and fails with the
first fault it meets.
-/

namespace MetadataBlock.Yaml

/-! ## What stands before a node -/

/-- What follows a run of lexemes. -/
inductive Following where
  | nothing
  | token (t : Lexeme)
  | node (l : Layout)

namespace Following

def ofNode : Option Layout → Following
  | some l => node l
  | none => nothing

def ofToken : Option Lexeme → Following
  | some t => token t
  | none => nothing

/-- The key of an item or, without one, the first lexeme behind its place. -/
def ofItem (key : Option Layout) (sep : Option (List Lexeme)) : Following :=
  match key with
  | some l => node l
  | none => ofToken ((sep.getD []).head?)

def isFlow : Following → Bool
  | node l => l.isFlow
  | _ => false

def isBlockCollection : Following → Bool
  | node l => l.isBlockCollection
  | _ => false

/-- The offset of what follows, if it has to be kept away from a tag or an anchor. -/
def needsSpace? : Following → Option Nat
  | nothing => none
  | token t =>
    match t.kind with
    | .space | .newline | .comma => none
    | _ => some t.offset
  | node (.leaf t _) => if t.kind == .plain && t.source.isEmpty then none else some t.offset
  | node l => some l.offset

end Following

/-- What a run of lexemes before a node may hold. -/
structure PropsQuery where
  flow : Option FlowKind := none
  indicator : LexemeKind
  following : Following
  offset : Nat
  parentIndent : Nat
  startOnNewline : Bool

/-- What a run of lexemes before a node holds. -/
structure Props where
  comma : Option Lexeme := none
  /-- The indicator that was asked for. -/
  found : Option Lexeme := none
  hasComment : Bool := false
  hasNewline : Bool := false
  anchor : Option Lexeme := none
  tag : Option Lexeme := none
  /-- The last line end behind a tag or an anchor. -/
  newlineAfter : Option Lexeme := none
  /-- The offset behind the lexemes. -/
  stop : Nat := 0
  /-- The offset of the first tag or anchor or, without one, the offset behind the
  lexemes. -/
  start : Nat := 0

/-- The state of reading such a run. -/
structure PropsReader where
  props : Props := {}
  start : Option Nat := none
  atNewline : Bool
  hasSpace : Bool
  /-- Was the last lexeme a tag or an anchor? -/
  needsSpace : Bool := false
  /-- A space that holds a tab and is the last lexeme. -/
  tab : Option Lexeme := none

namespace PropsReader

/-- Take one lexeme. -/
def add (q : PropsQuery) (r : PropsReader) (t : Lexeme) : Checked PropsReader := do
  let separates := t.kind == .space || t.kind == .newline || t.kind == .comma
  faultIf (r.needsSpace && !separates) .spaceAfterProperty t.offset
  match r.tab with
  | some tab =>
    faultIf (r.atNewline && t.kind != .comment && t.kind != .newline) .tabAsIndent tab.offset
  | none => pure ()
  let r := { r with needsSpace := false, tab := none }
  let p := r.props
  let hasProperty := p.anchor.isSome || p.tag.isSome
  let property (p : Props) : PropsReader :=
    { r with
      props := p
      start := r.start <|> some t.offset
      atNewline := false
      hasSpace := false
      needsSpace := true }
  if t.kind == .space then
    let mayIndent := q.flow.isNone && !(q.indicator == .documentStart && q.following.isFlow)
    let tab := if mayIndent && t.source.contains Text.tab then some t else none
    return { r with tab, hasSpace := true }
  else if t.kind == .comment then
    faultIf (!r.hasSpace) .spaceBeforeComment t.offset
    return { r with props := { p with hasComment := true }, atNewline := false }
  else if t.kind == .newline then
    let newlineAfter := if hasProperty then some t else p.newlineAfter
    return { r with
      props := { p with hasNewline := true, newlineAfter }
      atNewline := true
      hasSpace := true }
  else if t.kind == .anchor then
    faultIf p.anchor.isSome .twoAnchors t.offset
    return property { p with anchor := some t }
  else if t.kind == .tag then
    faultIf p.tag.isSome .twoTags t.offset
    return property { p with tag := some t }
  else if t.kind == q.indicator then
    faultIf hasProperty (.propertyBeforeIndicator t.source) t.offset
    let place : Text :=
      match q.flow with
      | some kind => kind.text
      | none => "collection"
    faultIf p.found.isSome (.unexpectedIn t.source place) t.offset
    return { r with
      props := { p with found := some t }
      atNewline := q.indicator == .seqItem || q.indicator == .explicitKey
      hasSpace := false }
  else
    match t.kind, q.flow with
    | .comma, some kind =>
      faultIf p.comma.isSome (.unexpectedIn "," kind.text) t.offset
      return { r with props := { p with comma := some t }, atNewline := false, hasSpace := false }
    | _, _ => fault (.unexpectedToken t.kind.name) t.offset

/-- Look at what follows the last lexeme. -/
def finish (q : PropsQuery) (ts : List Lexeme) (r : PropsReader) : Checked Props := do
  let stop :=
    match ts.getLast? with
    | some t => t.stop
    | none => q.offset
  match q.following.needsSpace? with
  | some offset => faultIf r.needsSpace .spaceAfterProperty offset
  | none => pure ()
  match r.tab with
  | some tab =>
    faultIf ((r.atNewline && tab.indent ≤ q.parentIndent) || q.following.isBlockCollection)
      .tabAsIndent tab.offset
  | none => pure ()
  return { r.props with stop, start := r.start.getD stop }

end PropsReader

/-- Read the lexemes before a node. -/
def readProps (q : PropsQuery) (ts : List Lexeme) : Checked Props := do
  let r ← ts.foldlM (PropsReader.add q)
    { atNewline := q.startOnNewline, hasSpace := q.startOnNewline }
  r.finish q ts

/-- Check the lexemes behind a node that begin at an offset; the offset behind them. -/
def readTrail (needSpace : Bool) (offset : Nat) (ts : List Lexeme) : Checked Nat := do
  let (_, offset) ← ts.foldlM (fun (hasSpace, offset) t => do
    let hasSpace ←
      match t.kind with
      | .space | .newline => pure true
      | .comment => do
        faultIf (needSpace && !hasSpace) .spaceBeforeComment t.offset
        pure hasSpace
      | kind => fault (.unexpectedAtNodeEnd kind.name) t.offset
    return (hasSpace, offset + t.source.length)) (false, offset)
  return offset

/-- Where an empty scalar stands that follows some lexemes: before the fillers at
their end, but behind the spaces on the line of the last other lexeme. -/
def emptyPosition (offset : Nat) (before : List Lexeme) : Nat :=
  let fillers := (before.reverse.takeWhile (·.kind.isFiller)).reverse
  let width (ts : List Lexeme) : Nat := total (ts.map (·.source.length))
  let base := offset - width fillers
  if fillers.length = before.length then base
  else base + width (fillers.takeWhile (·.kind == .space))

mutual

/-- Does a key stretch over a line end? -/
def containsNewline : Layout → Bool
  | .leaf t trail =>
    (t.kind matches .error _) || t.source.contains Text.lineFeed || includesKind trail .newline
  | .flow _ _ items _ => itemsContainNewline items
  | _ => true

def itemsContainNewline : List Item → Bool
  | [] => false
  | ⟨start, _, key, sep, value⟩ :: rest =>
    includesKind start .newline || includesKind (sep.getD []) .newline || optionContainsNewline key
      || optionContainsNewline value || itemsContainNewline rest

def optionContainsNewline : Option Layout → Bool
  | none => false
  | some l => containsNewline l

end

/-! ## Scalars -/

/-- A tree with the offset behind it. -/
structure Composed where
  tree : Tree
  stop : Nat

/-- What is known of a node from the lexemes before it and from its place. -/
structure NodeContext where
  directives : Directives
  atRoot : Bool := false
  asKey : Bool := false

/-- The name of a tag. An empty name is none. -/
def tagName (d : Directives) (tag : Option Lexeme) : Checked (Option Text) :=
  match tag with
  | none => .ok none
  | some t => do
    let name ← Tag.name d t.source t.offset
    return if name.isEmpty then none else some name

/-- The value of a scalar's text. -/
def valueOf (c : NodeContext) (isPlain : Bool) (tag : Option Lexeme) (text : Text) : Checked Value := do
  match ← tagName c.directives tag, tag with
  | some name, some t => Tag.valueOf c.directives.version name text t.offset
  | _, _ => return if isPlain then Value.plain c.directives.version c.asKey text else .text text

/-- A scalar tree. -/
def composeScalar (c : NodeContext) (isPlain : Bool) (p : Props) (text : Text) (offset stop : Nat) :
    Checked Composed := do
  let value ← valueOf c isPlain p.tag text
  return ⟨.scalar value p.tag.isSome none offset, stop⟩

/-- The anchor that precedes a node. -/
def anchorName (p : Props) : Checked (Option Text) :=
  match p.anchor with
  | none => .ok none
  | some t => do
    faultIf (t.source.length = 1) .emptyAnchor t.offset
    return some (t.source.drop 1)

/-- The empty scalar that stands where a node is missing. -/
def composeEmpty (c : NodeContext) (offset : Nat) (before : List Lexeme) (p : Props) :
    Checked Composed := do
  let place := emptyPosition offset before
  let r ← composeScalar c true p [] place place
  let anchor ← anchorName p
  return ⟨r.tree.withAnchor anchor, if p.hasComment then p.stop else r.stop⟩

/-- A flow scalar, an alias or a misplaced lexeme. -/
def composeLeaf (c : NodeContext) (p : Props) (t : Lexeme) (trail : List Lexeme) : Checked Composed := do
  let flow (text : Text) : Checked Composed := do
    let stop ← readTrail true t.stop trail
    composeScalar c (t.kind == .plain) p text t.offset stop
  match t.kind with
  | .plain => flow (← ScalarText.plain t.source t.offset)
  | .singleQuoted => flow (← ScalarText.singleQuoted t.source t.offset)
  | .doubleQuoted => flow (← ScalarText.doubleQuoted t.source t.offset)
  | .anchorRef => do
    faultIf (t.source.length = 1) .emptyAlias t.offset
    let stop ← readTrail true t.stop trail
    faultIf (p.anchor.isSome || p.tag.isSome) .aliasWithProperties t.offset
    return ⟨.aliasOf (t.source.drop 1) t.offset, stop⟩
  | .error message => fault (.badToken message) t.offset
  | kind => fault (.badToken ("Unsupported token (type: " ++ kind.name ++ ")")) t.offset

/-- The length of a block scalar's header with the lexemes behind it. -/
def headerLength (ts : List Lexeme) : Checked Nat := do
  let (_, length) ← ts.foldlM (fun (hasSpace, length) t => do
    let hasSpace ←
      match t.kind with
      | .space => pure true
      | .newline => pure hasSpace
      | .comment => do
        faultIf (!hasSpace) .spaceBeforeComment t.offset
        pure hasSpace
      | .error message => fault (.badToken message) t.offset
      | kind => fault (.headerToken kind.name) t.offset
    return (hasSpace, length + t.source.length)) (false, 0)
  return length

/-- A block scalar. -/
def composeBlockText (c : NodeContext) (p : Props) (offset indent : Nat) (header : List Lexeme)
    (source : Text) : Checked Composed := do
  let spelled := match header with
    | t :: _ => t.source
    | [] => []
  let h := ScalarText.Header.of spelled
  match h.extra with
  | some i => fault (.badBlockHeader spelled) (offset + i)
  | none => pure ()
  let start := offset + spelled.length + (← headerLength header.tail)
  let text ← ScalarText.block h indent c.atRoot source start
  composeScalar c false p text offset (start + source.length)

/-! ## Collections -/

/-- Is a key already in a mapping? -/
def includesKey (pairs : List Pair) (key : Tree) : Bool :=
  pairs.any fun p => p.key.sameKey key

/-- A mapping in the making: its pairs, last first, where it has got to, and the end
of a comment behind the last pair. -/
structure MapState where
  pairs : List Pair
  offset : Nat
  commentStop : Option Nat

/-- A sequence in the making, last item first. -/
structure SeqState where
  items : List Tree
  offset : Nat
  commentStop : Option Nat

/-- The offset behind a block collection. -/
def collectionStop (offset : Nat) (commentStop : Option Nat) : Nat :=
  commentStop.getD offset

/-- The start column of items has to be that of the mapping. -/
def checkKeyColumn (props : Props) (explicit : Bool) (key : Option Layout) (indent offset : Nat) :
    Checked Unit :=
  if explicit then
    faultIf (props.found.any fun t => t.indent != indent) .mapColumn offset
  else
    match key with
    | some l =>
      if l.isBlockSeq then fault .sequenceAsKey offset
      else faultIf (l.indent?.any fun i => i != indent) .mapColumn offset
    | none => .ok ()

/-- Where a fault of an implicit key is reported: at the key or, without one, at the
last lexeme before its place. -/
def keyPlace (key : Option Layout) (start : List Lexeme) (offset : Nat) : Nat :=
  match key with
  | some l => l.offset
  | none => (start.getLast?.map (·.offset)).getD offset

/-- A block sequence goes on its own line behind a tag or an anchor. -/
def checkSequenceProps (l : Layout) (p : Props) : Checked Unit :=
  if !l.isBlockSeq then .ok ()
  else
    let last :=
      match p.anchor, p.tag with
      | some a, some t => some (if t.offset < a.offset then a else t)
      | a, t => a <|> t
    match last with
    | none => .ok ()
    | some last =>
      faultIf (p.newlineAfter.all fun nl => nl.offset < last.offset) .newlineAfterSequenceProperty last.offset

/-- Is every value missing or null? -/
def allValuesNull (pairs : List Pair) : Bool :=
  pairs.all fun p => p.value.all (·.isBareNull)

/-- Carry out the tag of a collection: a set has keys only. -/
def applyCollectionTag (name : Option Text) (tag : Option Lexeme) (tree : Tree) : Checked Tree :=
  match tree, name, tag with
  | .map pairs false anchor offset, some name, some t =>
    if name == Tag.standard "set" then do
      faultIf (!allValuesNull pairs) .setWithValues t.offset
      return .map pairs true anchor offset
    else .ok tree
  | _, _, _ => .ok tree

/-- Check the closing bracket of a flow collection and what follows it. -/
def closeFlow (kind : FlowKind) (atRoot : Bool) (offset : Nat) (closing : List Lexeme) : Checked Nat := do
  match closing with
  | t :: rest =>
    faultIf (t.source != kind.closing) (if atRoot then .unclosedFlow kind else .outdentedFlow kind) offset
    readTrail true t.stop rest
  | [] => fault (if atRoot then .unclosedFlow kind else .outdentedFlow kind) offset

/-- The first line end before the lexeme that separates key and value. -/
def newlineBefore? (found : Lexeme) (sep : List Lexeme) : Option Lexeme :=
  (sep.takeWhile (· != found)).find? (·.kind == .newline)

/-- A value without `:` before it in a flow collection. -/
def missingColon (kind : FlowKind) (value : Layout) (start : Nat) : Fault :=
  match value with
  | .leaf t _ =>
    if t.source.head? == some (Text.unit ':') then ⟨.missingColonSpace kind, t.offset⟩
    else ⟨.missingCommaOrColon kind, start⟩
  | _ => ⟨.missingCommaOrColon kind, start⟩

mutual

/-- The tree of a node. -/
def composeNode (c : NodeContext) (p : Props) : Layout → Checked Composed
  | .leaf t trail => do
    let r ← composeLeaf c p t trail
    return { r with tree := r.tree.withAnchor (← anchorName p) }
  | .blockText offset indent header source => do
    let r ← composeBlockText c p offset indent header source
    return { r with tree := r.tree.withAnchor (← anchorName p) }
  | .blockMap offset indent items => do
    let name ← tagName c.directives p.tag
    let s ← composePairs c.directives offset indent items
    match s.commentStop with
    | some stop => faultIf (stop < s.offset && stop != 0) .trailingMapComment stop
    | none => pure ()
    let tree ← applyCollectionTag name p.tag (.map s.pairs.reverse false none offset)
    return ⟨tree.withAnchor (← anchorName p), collectionStop s.offset s.commentStop⟩
  | .blockSeq offset indent items => do
    let _ ← tagName c.directives p.tag
    checkSequenceProps (.blockSeq offset indent []) p
    let s ← composeItems c.directives offset indent items
    return ⟨.seq s.items.reverse (← anchorName p) offset, collectionStop s.offset s.commentStop⟩
  | .flow opening indent items closing => do
    let name ← tagName c.directives p.tag
    let isMap := opening.kind == .flowMapStart
    if isMap then
      let s ← composeFlowPairs c.directives opening.stop indent true items
      let stop ← closeFlow .map c.atRoot s.offset closing
      let tree ← applyCollectionTag name p.tag (.map s.pairs.reverse false none opening.offset)
      return ⟨tree.withAnchor (← anchorName p), stop⟩
    else
      let s ← composeFlowItems c.directives opening.stop indent true items
      let stop ← closeFlow .seq c.atRoot s.offset closing
      return ⟨.seq s.items.reverse (← anchorName p) opening.offset, stop⟩

/-- The tree of a node or, where it is missing, an empty scalar. -/
def composeOr (c : NodeContext) (p : Props) (offset : Nat) (before : List Lexeme) :
    Option Layout → Checked Composed
  | some l => composeNode c p l
  | none => composeEmpty c offset before p

/-- The pairs of a block mapping. -/
def composePairs (d : Directives) (mapOffset indent : Nat) : List Item → Checked MapState
  | [] => .ok ⟨[], mapOffset, none⟩
  | ⟨start, _, key, sep, value⟩ :: earlier => do
    let s ← composePairs d mapOffset indent earlier
    let props ← readProps
      { indicator := .explicitKey
        following := .ofItem key sep
        offset := s.offset
        parentIndent := indent
        startOnNewline := true } start
    let explicit := props.found.isSome
    checkKeyColumn props explicit key indent s.offset
    if !explicit && props.anchor.isNone && props.tag.isNone && sep.isNone then
      return { s with commentStop := some props.stop }
    else
      faultIf (!explicit && (props.newlineAfter.isSome || key.any containsNewline)) .multilineKey
        (keyPlace key start s.offset)
      let k ← composeOr { directives := d, asKey := true } props props.stop start key
      faultIf (includesKey s.pairs k.tree) .duplicateKey props.stop
      let valueProps ← readProps
        { indicator := .mapValue
          following := .ofNode value
          offset := k.stop
          parentIndent := indent
          startOnNewline := key.all (·.isBlockText) } (sep.getD [])
      match valueProps.found with
      | some found =>
        faultIf (!explicit && value.any (·.isBlockMap) && !valueProps.hasNewline) .nestedMapping
          valueProps.stop
        faultIf (!explicit && props.start + 1024 < found.offset) .longKey k.tree.offset
        let v ← composeOr { directives := d } valueProps valueProps.stop (sep.getD []) value
        return { s with pairs := ⟨k.tree, some v.tree⟩ :: s.pairs, offset := v.stop }
      | none =>
        faultIf (!explicit) .keyWithoutValue k.tree.offset
        return { s with pairs := ⟨k.tree, none⟩ :: s.pairs, offset := valueProps.stop }

/-- The items of a block sequence. -/
def composeItems (d : Directives) (seqOffset indent : Nat) : List Item → Checked SeqState
  | [] => .ok ⟨[], seqOffset, none⟩
  | ⟨start, _, _, _, value⟩ :: earlier => do
    let s ← composeItems d seqOffset indent earlier
    let props ← readProps
      { indicator := .seqItem
        following := .ofNode value
        offset := s.offset
        parentIndent := indent
        startOnNewline := true } start
    if props.found.isNone && props.anchor.isNone && props.tag.isNone && value.isNone then
      return { s with commentStop := some props.stop }
    else
      if props.found.isNone then
        if value.any (·.isBlockSeq) then fault .sequenceColumn props.stop else fault .missingDash s.offset
      let v ← composeOr { directives := d } props props.stop start value
      return { s with items := v.tree :: s.items, offset := v.stop }

/-- The pairs of a flow mapping. -/
def composeFlowPairs (d : Directives) (innerOffset indent : Nat) (isLast : Bool) :
    List Item → Checked MapState
  | [] => .ok ⟨[], innerOffset, none⟩
  | ⟨start, _, key, sep, value⟩ :: earlier => do
    let s ← composeFlowPairs d innerOffset indent false earlier
    let props ← readProps
      { flow := some .map
        indicator := .explicitKey
        following := .ofItem key sep
        offset := s.offset
        parentIndent := indent
        startOnNewline := false } start
    if props.found.isNone && props.anchor.isNone && props.tag.isNone && sep.isNone && value.isNone then
      match earlier, props.comma with
      | [], some comma => fault (.unexpectedIn "," FlowKind.map.text) comma.offset
      | _, _ => faultIf (!isLast) (.emptyItem .map) props.start
      return { s with offset := props.stop }
    else
      match earlier, props.comma with
      | [], some comma => fault (.unexpectedIn "," FlowKind.map.text) comma.offset
      | _ :: _, none => fault (.missingComma .map) props.start
      | _, _ => pure ()
      let k ← composeOr { directives := d, asKey := true } props props.stop start key
      faultIf (key.any (·.isBlockCollection)) .blockInFlow k.tree.offset
      let valueProps ← readProps
        { flow := some .map
          indicator := .mapValue
          following := .ofNode value
          offset := k.stop
          parentIndent := indent
          startOnNewline := false } (sep.getD [])
      match value with
      | some l =>
        if valueProps.found.isNone then .error (missingColon .map l valueProps.start)
        let v ← composeNode { directives := d } valueProps l
        faultIf l.isBlockCollection .blockInFlow v.tree.offset
        faultIf (includesKey s.pairs k.tree) .duplicateKey props.stop
        return { s with pairs := ⟨k.tree, some v.tree⟩ :: s.pairs, offset := v.stop }
      | none =>
        if valueProps.found.isSome then
          let v ← composeEmpty { directives := d } valueProps.stop (sep.getD []) valueProps
          faultIf (includesKey s.pairs k.tree) .duplicateKey props.stop
          return { s with pairs := ⟨k.tree, some v.tree⟩ :: s.pairs, offset := v.stop }
        else
          faultIf (includesKey s.pairs k.tree) .duplicateKey props.stop
          return { s with pairs := ⟨k.tree, none⟩ :: s.pairs, offset := valueProps.stop }

/-- The items of a flow sequence; a pair is a mapping of its own. -/
def composeFlowItems (d : Directives) (innerOffset indent : Nat) (isLast : Bool) :
    List Item → Checked SeqState
  | [] => .ok ⟨[], innerOffset, none⟩
  | ⟨start, _, key, sep, value⟩ :: earlier => do
    let s ← composeFlowItems d innerOffset indent false earlier
    let props ← readProps
      { flow := some .seq
        indicator := .explicitKey
        following := .ofItem key sep
        offset := s.offset
        parentIndent := indent
        startOnNewline := false } start
    let explicit := props.found.isSome
    if !explicit && props.anchor.isNone && props.tag.isNone && sep.isNone && value.isNone then
      match earlier, props.comma with
      | [], some comma => fault (.unexpectedIn "," FlowKind.seq.text) comma.offset
      | _, _ => faultIf (!isLast) (.emptyItem .seq) props.start
      return { s with offset := props.stop }
    else
      faultIf (!explicit && key.any containsNewline) .multilineFlowKey (keyPlace key start s.offset)
      match earlier, props.comma with
      | [], some comma => fault (.unexpectedIn "," FlowKind.seq.text) comma.offset
      | _ :: _, none => fault (.missingComma .seq) props.start
      | _, _ => pure ()
      if !explicit && sep.isNone then
        let v ← composeOr { directives := d } props props.stop [] value
        faultIf (value.any (·.isBlockCollection)) .blockInFlow v.tree.offset
        return { s with items := v.tree :: s.items, offset := v.stop }
      else
        let k ← composeOr { directives := d, asKey := true } props props.stop start key
        faultIf (key.any (·.isBlockCollection)) .blockInFlow k.tree.offset
        let valueProps ← readProps
          { flow := some .seq
            indicator := .mapValue
            following := .ofNode value
            offset := k.stop
            parentIndent := indent
            startOnNewline := false } (sep.getD [])
        match valueProps.found with
        | some found =>
          if !explicit then
            match newlineBefore? found (sep.getD []) with
            | some nl => fault .multilineFlowKey nl.offset
            | none => pure ()
            faultIf (props.start + 1024 < found.offset) .longFlowKey found.offset
        | none => pure ()
        let pair (value : Option Tree) : Tree := .map [⟨k.tree, value⟩] false none k.tree.offset
        match value with
        | some l =>
          if valueProps.found.isNone then .error (missingColon .seq l valueProps.start)
          let v ← composeNode { directives := d } valueProps l
          faultIf l.isBlockCollection .blockInFlow v.tree.offset
          return { s with items := pair (some v.tree) :: s.items, offset := v.stop }
        | none =>
          if valueProps.found.isSome then
            let v ← composeEmpty { directives := d } valueProps.stop (sep.getD []) valueProps
            return { s with items := pair (some v.tree) :: s.items, offset := v.stop }
          else return { s with items := pair none :: s.items, offset := valueProps.stop }

end

/-- Does the lexeme list of a document begin with the marker `---`? -/
def DocumentLayout.hasMarker (d : DocumentLayout) : Bool :=
  includesKind d.start .documentStart

/-- The tree of a document. -/
def composeDocument (directives : Directives) (d : DocumentLayout) : Checked Tree := do
  let props ← readProps
    { indicator := .documentStart
      following :=
        match d.root with
        | some l => .node l
        | none => .ofToken d.trail.head?
      offset := d.offset
      parentIndent := 0
      startOnNewline := true } d.start
  faultIf (props.found.isSome && d.root.any (·.isBlockCollection) && !props.hasNewline)
    .blockOnMarkerLine props.stop
  let r ← composeOr { directives, atRoot := true } props props.stop d.start d.root
  let _ ← readTrail false r.stop d.trail
  return r.tree

end MetadataBlock.Yaml
