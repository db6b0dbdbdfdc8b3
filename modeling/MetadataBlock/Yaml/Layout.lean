import MetadataBlock.Yaml.Lexeme

/-!
# The layout of a YAML source

Lexemes are arranged into the collections that indentation and brackets spell
out, every lexeme keeping its place in one of them. Whether the layout makes sense
is not decided here: a layout holds misplaced lexemes too.
-/

namespace MetadataBlock.Yaml

mutual

/-- A node of the layout. The items of a collection stand last first. -/
inductive Layout where
  /-- A flow scalar or a reference to an anchor, with the lexemes behind it. -/
  | leaf (token : Lexeme) (trail : List Lexeme)
  /-- A block scalar: its header with the lexemes behind it, and its text. -/
  | blockText (offset indent : Nat) (header : List Lexeme) (source : Text)
  | blockMap (offset indent : Nat) (items : List Item)
  | blockSeq (offset indent : Nat) (items : List Item)
  /-- A flow collection with its opening lexeme, the closing one and what follows it. -/
  | flow (opening : Lexeme) (indent : Nat) (items : List Item) (closing : List Lexeme)

/-- An item of a collection. -/
structure Item where
  /-- What stands before the key, or before the value of a sequence. -/
  start : List Lexeme
  /-- Was the key announced by `?`. -/
  explicitKey : Bool
  key : Option Layout
  /-- What stands between key and value; none if the key is not complete. -/
  sep : Option (List Lexeme)
  value : Option Layout

end

/-- An item of which only the start is known. -/
def Item.ofStart (start : List Lexeme) : Item :=
  ⟨start, false, none, none, none⟩

/-- A document: the lexemes before its root, the root, and those behind it. -/
structure DocumentLayout where
  offset : Nat
  start : List Lexeme
  root : Option Layout
  trail : List Lexeme

/-- What a source consists of at the top. -/
inductive Part where
  /-- A byte order mark, space, comment or line end between documents. -/
  | filler (token : Lexeme)
  | directive (offset : Nat) (source : Text)
  | error (offset : Nat) (message source : Text)
  | document (d : DocumentLayout)
  /-- The marker `...` with what follows it on its line. -/
  | documentEnd (offset : Nat) (source : Text) (trail : List Lexeme)

namespace Layout

/-- Where a node begins. -/
def offset : Layout → Nat
  | leaf token _ => token.offset
  | blockText offset .. | blockMap offset .. | blockSeq offset .. => offset
  | flow opening .. => opening.offset

/-- The indentation of a node, if it has one. -/
def indent? : Layout → Option Nat
  | leaf token _ => if token.kind matches .error _ then none else some token.indent
  | blockText _ indent .. | blockMap _ indent _ | blockSeq _ indent _ | flow _ indent .. => some indent

def isBlockMap : Layout → Bool
  | blockMap .. => true
  | _ => false

def isBlockSeq : Layout → Bool
  | blockSeq .. => true
  | _ => false

def isBlockText : Layout → Bool
  | blockText .. => true
  | _ => false

def isFlow : Layout → Bool
  | flow .. => true
  | _ => false

/-- Is the node a collection in block style? -/
def isBlockCollection (l : Layout) : Bool :=
  l.isBlockMap || l.isBlockSeq

/-- Is the node in flow style? -/
def isFlowNode : Layout → Bool
  | leaf token _ => token.kind.isFlowScalar
  | flow .. => true
  | _ => false

/-- The lexemes behind a node in flow style, if there are any. -/
def trail? : Layout → Option (List Lexeme)
  | leaf _ [] => none
  | leaf _ trail => some trail
  | flow _ _ _ closing => some closing
  | _ => none

/-- Add lexemes behind a node in flow style. -/
def extendTrail (l : Layout) (ts : List Lexeme) : Layout :=
  match l with
  | leaf token trail => leaf token (trail ++ ts)
  | flow opening indent items closing => flow opening indent items (closing ++ ts)
  | l => l

end Layout

/-! ## Arranging lexemes -/

namespace Arranger

/-- An open node: the root's place, or a node that is not complete. -/
inductive Frame where
  | document (d : DocumentLayout)
  | documentEnd (offset : Nat) (source : Text) (trail : List Lexeme)
  | node (l : Layout)

end Arranger

open Arranger in
/-- The state of arranging: the open nodes, innermost first, and what is complete. -/
structure Arranger where
  stack : List Frame := []
  /-- The complete parts, last first. -/
  parts : List Part := []
  offset : Nat := 0
  /-- The indentation of the present line as far as it is known. -/
  indent : Nat := 0
  atNewLine : Bool := true
  /-- Has the present line already shown a key? -/
  onKeyLine : Bool := false

namespace Arranger

/-- Give out a part. -/
def giveOut (a : Arranger) (p : Part) : Arranger :=
  { a with parts := p :: a.parts }

/-- Replace the innermost open node. -/
def setTop (a : Arranger) (f : Frame) : Arranger :=
  { a with stack := f :: a.stack.tail }

/-- Open a node. -/
def push (a : Arranger) (l : Layout) : Arranger :=
  { a with stack := .node l :: a.stack }

/-- The lexeme as a scalar node. -/
def scalarOf (t : Lexeme) : Layout :=
  .leaf t []

/-- Split the lexemes before a key off: those behind the last indicator or line end
and the spaces that follow it. -/
def splitKeyStart (ts : List Lexeme) : List Lexeme × List Lexeme :=
  let isStop (t : Lexeme) : Bool :=
    match t.kind with
    | .documentStart | .explicitKey | .mapValue | .seqItem | .newline => true
    | _ => false
  let behind := ts.reverse.takeWhile (!isStop ·)
  let before := ts.take (ts.length - behind.length)
  let behind := behind.reverse
  let spaces := behind.takeWhile (·.kind == .space)
  (before ++ spaces, behind.drop spaces.length)

/-- Take the lexemes before a key away from the node in which it stands. -/
def takeKeyStart (f : Frame) : Frame × List Lexeme :=
  match f with
  | .document d =>
    let (kept, start) := splitKeyStart d.start
    (.document { d with start := kept }, start)
  | .node (.blockMap offset indent (item :: items)) =>
    match item.sep with
    | some sep =>
      let (kept, start) := splitKeyStart sep
      (.node (.blockMap offset indent ({ item with sep := some kept } :: items)), start)
    | none =>
      let (kept, start) := splitKeyStart item.start
      (.node (.blockMap offset indent ({ item with start := kept } :: items)), start)
  | .node (.blockSeq offset indent (item :: items)) =>
    let (kept, start) := splitKeyStart item.start
    (.node (.blockSeq offset indent ({ item with start := kept } :: items)), start)
  | f => (f, [])

/-- An item of a flow sequence that turned out to be no pair becomes a value. -/
def Item.asValue (item : Item) : Item :=
  match item.sep, item.value with
  | some sep, none =>
    if includesKind item.start .explicitKey || includesKind sep .mapValue then item
    else
      match item.key with
      | some key =>
        if key.isFlowNode then
          { item with key := none, sep := none, value := some (key.extendTrail sep) }
        else { item with key := none, sep := none, value := some key, start := item.start ++ sep }
      | none => { item with sep := none, start := item.start ++ sep }
  | _, _ => item

/-- Complete the items of a flow sequence. -/
def settleFlow : Layout → Layout
  | .flow opening indent items closing =>
    if opening.kind == .flowSeqStart then .flow opening indent (items.map Item.asValue) closing
    else .flow opening indent items closing
  | l => l

/-- An item that opens with nothing but fillers, at the end of a block collection,
belongs to the parent, unless its comments are indented like the collection. -/
def splitTrailing (l : Layout) : Layout × Option (List Lexeme) :=
  let loose (indent : Nat) (item : Item) : Bool :=
    item.sep.isNone && item.value.isNone && !item.start.isEmpty && item.start.all (·.kind.isFiller)
      && (indent == 0 || item.start.all fun t => t.kind != .comment || t.indent < indent)
  match l with
  | .blockMap offset indent (item :: items) =>
    if loose indent item then (.blockMap offset indent items, some item.start) else (l, none)
  | .blockSeq offset indent (item :: items) =>
    if loose indent item then (.blockSeq offset indent items, some item.start) else (l, none)
  | l => (l, none)

/-- The indentation that a finished node takes over from the node around it. -/
def adoptIndent (f : Frame) (l : Layout) : Layout :=
  match l, f with
  | .blockText offset _ header source, .node parent => .blockText offset (parent.indent?.getD 0) header source
  | .blockText offset _ header source, _ => .blockText offset 0 header source
  | .flow opening _ items closing, .document _ => .flow opening 0 items closing
  | l, _ => l

/-- Put a finished node into the innermost open one. A scalar that is still open is
finished first. -/
def attach : Nat → Layout → Arranger → Arranger
  | 0, _, a => a
  | fuel + 1, l, a =>
    match a.stack with
    | [] =>
      match l with
      | .leaf t _ =>
        match t.kind with
        | .error message => a.giveOut (.error t.offset message t.source)
        | _ => a
      | _ => a
    | f :: outer =>
      let l := settleFlow (adoptIndent f l)
      match f with
      | .document d =>
        let (l, rest) := splitTrailing l
        a.setTop (.document { d with root := some l, trail := rest.getD d.trail })
      | .node (.blockText offset indent header source) =>
        match l with
        | .leaf t _ => a.setTop (.node (.blockText offset indent (header ++ [t]) source))
        | _ => a
      | .node (.blockMap offset indent (item :: items)) =>
        if item.value.isSome then
          { a.setTop (.node (.blockMap offset indent
              (⟨[], false, some l, some [], none⟩ :: item :: items))) with onKeyLine := true }
        else if item.sep.isSome then
          let (l, rest) := splitTrailing l
          let items := { item with value := some l } :: items
          let items := match rest with
            | some start => Item.ofStart start :: items
            | none => items
          a.setTop (.node (.blockMap offset indent items))
        else
          { a.setTop (.node (.blockMap offset indent
              ({ item with key := some l, sep := some [] } :: items))) with onKeyLine := !item.explicitKey }
      | .node (.blockSeq offset indent (item :: items)) =>
        let (l, rest) := splitTrailing l
        let items :=
          if item.value.isSome then ⟨[], false, none, none, some l⟩ :: item :: items
          else { item with value := some l } :: items
        let items := match rest with
          | some start => Item.ofStart start :: items
          | none => items
        a.setTop (.node (.blockSeq offset indent items))
      | .node (.flow opening indent items closing) =>
        let items : List Item :=
          match items with
          | [] => [⟨[], false, some l, some [], none⟩]
          | item :: rest =>
            if item.value.isSome then ⟨[], false, some l, some [], none⟩ :: item :: rest
            else if item.sep.isSome then { item with value := some l } :: rest
            else { item with key := some l, sep := some [] } :: rest
        a.setTop (.node (.flow opening indent items closing))
      | .node inner => attach fuel l (attach fuel inner { a with stack := outer })
      | .documentEnd offset source trail =>
        attach fuel l ({ a with stack := outer }.giveOut (.documentEnd offset source trail))

/-- Finish the innermost open node. -/
def pop (a : Arranger) : Arranger :=
  match a.stack with
  | [] => a
  | .document d :: outer => { a with stack := outer }.giveOut (.document d)
  | .documentEnd offset source trail :: outer =>
    { a with stack := outer }.giveOut (.documentEnd offset source trail)
  | .node l :: outer => attach (2 * outer.length + 2) l { a with stack := outer }

/-- Finish all open nodes. -/
def popAll : Nat → Arranger → Arranger
  | 0, a => a
  | fuel + 1, a => if a.stack.isEmpty then a else popAll fuel a.pop

/-- A misplaced lexeme with a message. -/
def errorAt (t : Lexeme) (message : Text) : Layout :=
  .leaf { t with kind := .error message } []

/-- Report a lexeme that may not stand where it does. -/
def unexpected (t : Lexeme) (place : Text) (a : Arranger) : Arranger :=
  a.giveOut (.error t.offset ("Unexpected " ++ t.kind.name ++ " token in YAML " ++ place) t.source)

/-- The node that a lexeme opens, if it opens one. A key takes the lexemes before it
out of the innermost open node. -/
def openNode (t : Lexeme) (a : Arranger) : Option (Arranger × Layout) :=
  let keyed (explicit : Bool) : Option (Arranger × Layout) :=
    match a.stack with
    | [] => none
    | f :: _ =>
      let (f, start) := takeKeyStart f
      let item : Item :=
        if explicit then ⟨start ++ [t], true, none, none, none⟩ else ⟨start, false, none, some [t], none⟩
      some ({ a.setTop f with onKeyLine := true }, .blockMap t.offset t.indent [item])
  match t.kind with
  | .anchorRef | .plain | .singleQuoted | .doubleQuoted => some (a, scalarOf t)
  | .blockHeader => some (a, .blockText t.offset t.indent [t] [])
  | .flowMapStart | .flowSeqStart => some (a, .flow t t.indent [] [])
  | .seqItem => some (a, .blockSeq t.offset t.indent [Item.ofStart [t]])
  | .explicitKey => keyed true
  | .mapValue => keyed false
  | _ => none

/-- A lexeme between documents. -/
def atStream (t : Lexeme) (a : Arranger) : Arranger :=
  match t.kind with
  | .directive => a.giveOut (.directive t.offset t.source)
  | .byteOrderMark | .space | .comment | .newline => a.giveOut (.filler t)
  | .documentMode => { a with stack := [.document ⟨t.offset, [], none, []⟩] }
  | .documentStart => { a with stack := [.document ⟨t.offset, [t], none, []⟩] }
  | _ => unexpected t "stream" a

/-- Is the lexeme an indented comment behind nothing but line ends and spaces? -/
def isIndentedComment (t : Lexeme) (start : List Lexeme) (indent : Nat) : Bool :=
  t.kind == .comment && indent < t.indent
    && start.all fun s => s.kind == .newline || s.kind == .space

/-- A filler inside a block collection: the items after it, last first. A comment
that is indented deeper than the collection belongs to the value before it. -/
def addFiller (t : Lexeme) (indent : Nat) (items : List Item) : List Item :=
  match items with
  | [] => []
  | item :: rest =>
    match item.value with
    | some value =>
      let last := value.trail?.bind (·.getLast?)
      if t.kind == .newline && (last.any fun l => l.kind == .comment) then
        { item with value := some (value.extendTrail [t]) } :: rest
      else Item.ofStart [t] :: item :: rest
    | none =>
      match item.sep with
      | some sep => { item with sep := some (sep ++ [t]) } :: rest
      | none =>
        match rest with
        | previous :: older =>
          match previous.value with
          | some value =>
            if isIndentedComment t item.start indent && value.trail?.isSome then
              { previous with value := some (value.extendTrail (item.start ++ [t])) } :: older
            else { item with start := item.start ++ [t] } :: rest
          | none => { item with start := item.start ++ [t] } :: rest
        | [] => { item with start := item.start ++ [t] } :: rest

/-- Where the lexemes that belong to the next item begin among those behind a key: at
the second of the line ends that only spaces and comments follow. -/
def nextItemStart (indent : Nat) (sep : List Lexeme) : Nat :=
  let places := sep.zipIdx.foldl (fun (places : List Nat) (t, i) =>
    match t.kind with
    | .newline => places ++ [i]
    | .space => places
    | .comment => if indent < t.indent then [] else places
    | _ => []) []
  match places with
  | _ :: second :: _ => second
  | _ => sep.length

/-- What is to be done after one look at a lexeme: nothing, or look again after
finishing the innermost open node. -/
inductive Outcome where
  | done (a : Arranger)
  | again (a : Arranger)

/-- The lexemes that end a node whose content is complete. -/
def endsNode : LexemeKind → Bool
  | .comma | .documentStart | .documentEnd | .flowSeqEnd | .flowMapEnd | .mapValue => true
  | _ => false

/-- A lexeme behind the complete root of a document. -/
def behindRoot (t : Lexeme) (d : DocumentLayout) (a : Arranger) : Outcome :=
  if endsNode t.kind then .again a
  else
    let a := a.setTop (.document { d with trail := d.trail ++ [t] })
    if t.kind == .newline then .done { a.pop with onKeyLine := false } else .done a

/-- A lexeme behind a complete flow node. -/
def behindFlow (t : Lexeme) (l : Layout) (a : Arranger) : Outcome :=
  if endsNode t.kind then .again a
  else
    let a := a.setTop (.node (l.extendTrail [t]))
    if t.kind == .newline then .done { a with onKeyLine := false }.pop else .done a

/-- A lexeme before or behind the root of a document. -/
def inDocument (t : Lexeme) (d : DocumentLayout) (a : Arranger) : Outcome :=
  if d.root.isSome then behindRoot t d a
  else
    match t.kind with
    | .documentStart =>
      if d.start.all (·.kind.isFiller) then .done (a.setTop (.document { d with start := d.start ++ [t] }))
      else .again a
    | .anchor | .tag | .space | .comment | .newline =>
      .done (a.setTop (.document { d with start := d.start ++ [t] }))
    | _ =>
      match openNode t a with
      | some (a, l) => .done (a.push l)
      | none => .done (unexpected t "document" a)

/-- Turn the innermost open node, a finished key, into a block mapping that it opens. -/
def keyToMap (key : Layout) (offset indent : Nat) (sep : List Lexeme) (a : Arranger) : Arranger :=
  match a.stack with
  | _ :: parent :: outer =>
    let (parent, start) := takeKeyStart parent
    { a with
      stack := .node (.blockMap offset indent [⟨start, false, some key, some sep, none⟩]) :: parent :: outer
      onKeyLine := true }
  | _ => a

/-- A lexeme behind a flow scalar. -/
def behindScalar (t : Lexeme) (token : Lexeme) (trail : List Lexeme) (a : Arranger) : Outcome :=
  if t.kind == .mapValue then
    .done (keyToMap (.leaf token []) token.offset token.indent (trail ++ [t]) a)
  else behindFlow t (.leaf token trail) a

/-- A lexeme between the header and the text of a block scalar, or its text. -/
def inBlockText (t : Lexeme) (offset indent : Nat) (header : List Lexeme) (source : Text)
    (a : Arranger) : Outcome :=
  match t.kind with
  | .space | .comment | .newline =>
    .done (a.setTop (.node (.blockText offset indent (header ++ [t]) source)))
  | .plain =>
    .done (Arranger.pop { a.setTop (.node (.blockText offset indent header t.source)) with
      atNewLine := true, indent := 0 })
  | _ => .again a

/-- The indicator `:` in a block mapping whose newest item is `item`; `start` are the
lexemes that belong to a next item, if there is one. -/
def mapValueIn (t : Lexeme) (offset indent : Nat) (item : Item) (items : List Item)
    (start : List Lexeme) (atNextItem : Bool) (a : Arranger) : Arranger :=
  let replace (items : List Item) : Arranger := a.setTop (.node (.blockMap offset indent items))
  let nested (inner : Item) : Layout := .blockMap t.offset t.indent [inner]
  let a :=
    match item.explicitKey, item.sep with
    | true, none =>
      if includesKind item.start .newline then
        replace ({ item with key := none, sep := some [t] } :: items)
      else
        let (kept, start) := splitKeyStart item.start
        (replace ({ item with start := kept } :: items)).push (nested ⟨start, false, none, some [t], none⟩)
    | true, some sep =>
      if item.value.isSome then replace (⟨[], false, none, some [t], none⟩ :: item :: items)
      else if includesKind sep .mapValue then
        (replace (item :: items)).push (nested ⟨start, false, none, some [t], none⟩)
      else if item.key.any Layout.isFlowNode && !includesKind sep .newline then
        let (kept, start) := splitKeyStart item.start
        (replace ({ item with start := kept, key := none, sep := none } :: items)).push
          (nested ⟨start, false, item.key, some (sep ++ [t]), none⟩)
      else replace ({ item with sep := some (sep ++ start ++ [t]) } :: items)
    | false, none => replace ({ item with key := none, sep := some [t] } :: items)
    | false, some sep =>
      if item.value.isSome || atNextItem then
        replace (⟨start, false, none, some [t], none⟩ :: item :: items)
      else if includesKind sep .mapValue then
        (replace (item :: items)).push (nested ⟨[], false, none, some [t], none⟩)
      else replace ({ item with sep := some (sep ++ [t]) } :: items)
  { a with onKeyLine := true }

/-- A lexeme that is indented enough for a block mapping. -/
def inMap (t : Lexeme) (offset indent : Nat) (item : Item) (items : List Item) (a : Arranger) :
    Outcome :=
  let atMapIndent := !a.onKeyLine && t.indent == indent
  let atNextItem := atMapIndent && (item.sep.isSome || item.explicitKey) && t.kind != .seqItem
  let cut :=
    match item.sep with
    | some sep => if atNextItem && item.value.isNone then nextItemStart indent sep else sep.length
    | none => 0
  let start := (item.sep.getD []).drop cut
  let item := { item with sep := item.sep.map (·.take cut) }
  let replace (items : List Item) : Arranger := a.setTop (.node (.blockMap offset indent items))
  let onKeyLine (a : Arranger) : Outcome := .done { a with onKeyLine := true }
  let opensItem := atNextItem || item.value.isSome
  match t.kind with
  | .anchor | .tag =>
    if opensItem then onKeyLine (replace (Item.ofStart (start ++ [t]) :: item :: items))
    else
      match item.sep with
      | some sep => .done (replace ({ item with sep := some (sep ++ [t]) } :: items))
      | none => .done (replace ({ item with start := item.start ++ [t] } :: items))
  | .explicitKey =>
    if item.sep.isNone && !item.explicitKey then
      onKeyLine (replace ({ item with start := item.start ++ [t], explicitKey := true } :: items))
    else if opensItem then
      onKeyLine (replace (⟨start ++ [t], true, none, none, none⟩ :: item :: items))
    else
      onKeyLine ((replace (item :: items)).push
        (.blockMap t.offset t.indent [⟨[t], true, none, none, none⟩]))
  | .mapValue => .done (mapValueIn t offset indent item items start atNextItem a)
  | .anchorRef | .plain | .singleQuoted | .doubleQuoted =>
    if opensItem then
      onKeyLine (replace (⟨start, false, some (scalarOf t), some [], none⟩ :: item :: items))
    else if item.sep.isSome then .done ((replace (item :: items)).push (scalarOf t))
    else onKeyLine (replace ({ item with key := some (scalarOf t), sep := some [] } :: items))
  | _ =>
    match openNode t (replace (item :: items)) with
    | none => .again (replace (item :: items))
    | some (a, l) =>
      if l.isBlockSeq then
        if !item.explicitKey && (item.sep.any fun sep => !includesKind sep .newline) then
          .done (attach (2 * a.stack.length + 2)
            (errorAt t "Unexpected block-seq-ind on same line with key") a)
        else .done (a.push l)
      else if atMapIndent then
        .done (Arranger.push (a.setTop (.node (.blockMap offset indent (Item.ofStart start :: item :: items)))) l)
      else .done (a.push l)

/-- A lexeme in a block mapping. -/
def inBlockMap (t : Lexeme) (offset indent : Nat) (items : List Item) (a : Arranger) : Outcome :=
  if t.kind.isFiller then
    let a := a.setTop (.node (.blockMap offset indent (addFiller t indent items)))
    .done (if t.kind == .newline then { a with onKeyLine := false } else a)
  else if indent ≤ t.indent then
    match items with
    | item :: items => inMap t offset indent item items a
    | [] => .again a
  else .again a

/-- A lexeme in a block sequence. -/
def inBlockSeq (t : Lexeme) (offset indent : Nat) (items : List Item) (a : Arranger) : Outcome :=
  let replace (items : List Item) : Arranger := a.setTop (.node (.blockSeq offset indent items))
  let other : Outcome :=
    if indent < t.indent then
      match openNode t a with
      | some (a, l) => .done (a.push l)
      | none => .again a
    else .again a
  match items with
  | [] => .again a
  | item :: rest =>
    match t.kind with
    | .newline | .space | .comment => .done (replace (addFiller t indent items))
    | .anchor | .tag =>
      if item.value.isSome || t.indent ≤ indent then other
      else .done (replace ({ item with start := item.start ++ [t] } :: rest))
    | .seqItem =>
      if t.indent != indent then other
      else if item.value.isSome || includesKind item.start .seqItem then
        .done (replace (Item.ofStart [t] :: items))
      else .done (replace ({ item with start := item.start ++ [t] } :: rest))
    | _ => other

/-- Leave the flow collections that are open around the innermost node. -/
def leaveFlow : Nat → Arranger → Arranger
  | 0, a => a
  | fuel + 1, a =>
    let a := a.pop
    match a.stack with
    | .node (.flow ..) :: _ => leaveFlow fuel a
    | _ => a

/-- A lexeme in a flow collection that is not closed. -/
def inOpenFlow (t : Lexeme) (opening : Lexeme) (indent : Nat) (items : List Item) (a : Arranger) :
    Outcome :=
  let replace (items : List Item) : Outcome := .done (a.setTop (.node (.flow opening indent items [])))
  let open? : Outcome :=
    match openNode t a with
    | some (a, l) => .done (a.push l)
    | none => .again a
  let fresh : Bool := items.head?.all (·.value.isSome)
  match t.kind with
  | .comma | .explicitKey =>
    match items with
    | [] => replace [Item.ofStart [t]]
    | item :: rest =>
      if item.sep.isSome then replace (Item.ofStart [t] :: items)
      else replace ({ item with start := item.start ++ [t] } :: rest)
  | .mapValue =>
    match items with
    | [] => replace [⟨[], false, none, some [t], none⟩]
    | item :: rest =>
      if fresh then replace (⟨[], false, none, some [t], none⟩ :: items)
      else
        match item.sep with
        | some sep => replace ({ item with sep := some (sep ++ [t]) } :: rest)
        | none => replace ({ item with key := none, sep := some [t] } :: rest)
  | .space | .comment | .newline | .anchor | .tag =>
    match items with
    | [] => replace [Item.ofStart [t]]
    | item :: rest =>
      if fresh then replace (Item.ofStart [t] :: items)
      else
        match item.sep with
        | some sep => replace ({ item with sep := some (sep ++ [t]) } :: rest)
        | none => replace ({ item with start := item.start ++ [t] } :: rest)
  | .anchorRef | .plain | .singleQuoted | .doubleQuoted =>
    match items with
    | [] => replace [⟨[], false, some (scalarOf t), some [], none⟩]
    | item :: rest =>
      if fresh then replace (⟨[], false, some (scalarOf t), some [], none⟩ :: items)
      else if item.sep.isSome then .done (a.push (scalarOf t))
      else replace ({ item with key := some (scalarOf t), sep := some [] } :: rest)
  | .flowMapEnd | .flowSeqEnd => .done (a.setTop (.node (.flow opening indent items [t])))
  | _ => open?

/-- Does the block mapping around a closed flow collection take the lexeme? -/
def parentTakes (t : Lexeme) (indent : Nat) : Option Frame → Bool
  | some (.node (.blockMap _ parentIndent items)) =>
    (t.kind == .mapValue && parentIndent == indent)
      || (t.kind == .newline && items.head?.all (·.sep.isNone))
  | _ => false

/-- A lexeme in or behind a flow collection. -/
def inFlow (t : Lexeme) (opening : Lexeme) (indent : Nat) (items : List Item)
    (closing : List Lexeme) (a : Arranger) : Outcome :=
  if t.kind == .flowError then .done (leaveFlow (a.stack.length + 1) a)
  else if closing.isEmpty then inOpenFlow t opening indent items a
  else
    let parent := a.stack[1]?
    let l : Layout := .flow opening indent items closing
    if parentTakes t indent parent then .again a
    else if t.kind == .mapValue && !(parent.any fun f => f matches .node (.flow ..)) then
      .done (keyToMap (settleFlow (.flow opening indent items (closing.take 1))) opening.offset indent
        (closing.drop 1 ++ [t]) a)
    else behindFlow t l a

/-- One look at a lexeme. -/
def look (t : Lexeme) (a : Arranger) : Outcome :=
  match a.stack with
  | [] => .done (atStream t a)
  | .document d :: _ => inDocument t d a
  | .documentEnd offset source trail :: _ =>
    if t.kind == .documentMode then .done a
    else
      let a := a.setTop (.documentEnd offset source (trail ++ [t]))
      .done (if t.kind == .newline then a.pop else a)
  | .node (.leaf token trail) :: _ => behindScalar t token trail a
  | .node (.blockText offset indent header source) :: _ => inBlockText t offset indent header source a
  | .node (.blockMap offset indent items) :: _ => inBlockMap t offset indent items a
  | .node (.blockSeq offset indent items) :: _ => inBlockSeq t offset indent items a
  | .node (.flow opening indent items closing) :: _ => inFlow t opening indent items closing a

/-- Find the place of a lexeme, finishing nodes on the way out. -/
def place : Nat → Lexeme → Arranger → Arranger
  | 0, _, a => a
  | fuel + 1, t, a =>
    let inEnd := a.stack.head?.any fun f => f matches .documentEnd ..
    if t.kind == .documentEnd && !inEnd then
      { popAll (2 * a.stack.length) a with stack := [.documentEnd t.offset t.source []] }
    else
      match look t a with
      | .done a => a
      | .again a => place fuel t a.pop

/-- Take the next lexeme and keep track of line starts and indentation. -/
def next (a : Arranger) (p : Piece) : Arranger :=
  let a := if p.kind == .plain then { a with atNewLine := false } else a
  let t : Lexeme := ⟨p.kind, a.offset, a.indent, p.source⟩
  let n := p.source.length
  match p.kind with
  | .error _ => { attach (2 * a.stack.length + 2) (.leaf t []) a with offset := a.offset + n }
  | kind =>
    let a := place (2 * a.stack.length + 4) t a
    let a := { a with offset := a.offset + n }
    match kind with
    | .plain => a
    | .newline => { a with atNewLine := true, indent := 0 }
    | .space =>
      if a.atNewLine && p.source.head? == some Text.space then { a with indent := a.indent + n } else a
    | .explicitKey | .mapValue | .seqItem =>
      if a.atNewLine then { a with indent := a.indent + n } else a
    | .documentMode | .flowError => a
    | _ => { a with atNewLine := false }

end Arranger

/-- The parts of a source. -/
def arrange (pieces : List Piece) : List Part :=
  let a := pieces.foldl Arranger.next {}
  (Arranger.popAll (2 * a.stack.length + 2) a).parts.reverse

end MetadataBlock.Yaml
