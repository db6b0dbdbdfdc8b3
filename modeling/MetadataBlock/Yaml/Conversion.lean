import MetadataBlock.Data.Json
import MetadataBlock.Document.Basic
import MetadataBlock.Yaml.Tree

/-!
# From YAML trees to documents and data

`Tree.toNode` makes a document node of a tree. Anchored nodes are remembered in the
order in which they begin, so that an alias finds the last one with its anchor; it
yields that node with that node's position, and null if there is none. An alias inside
the node that it refers to leads around in a circle, and then no document node comes of
it.

`Tree.toData` makes data of a tree; here an alias without target is an error. An alias
inside the node that it refers to stands for a value that holds itself; only the kind of
such a value can be told there.
-/

namespace MetadataBlock.Yaml

namespace Value

/-- The value as a scalar of a document; a date is kept as its day. -/
def toScalar : Value → Scalar
  | null => .null
  | bool b => .bool b
  | number n => .number n
  | text t => .text t
  | v => (Scalar.ofData? v.toData).getD .null

/-- The value of a member of a JSON object or list. -/
def toJsonData : Value → Data
  | date ms => .text (((Moment.ofNumber? ms).map (·.isoText)).getD [])
  | v => v.toData

end Value

/-- The name of a field for a key. Null gives the empty name. -/
def fieldName : Data → Text
  | .null => []
  | .list items => (Data.list items).json
  | .object fields => (Data.object fields).json
  | .set members => (Data.set members).json
  | d => d.display

mutual

/-- A tree as data in which aliases remain: an alias is an object that names its
source. -/
def Tree.toJsonData : Tree → Data
  | .scalar value .. => value.toJsonData
  | .aliasOf name _ => .object [("source", .text name)]
  | .seq items .. => .list (itemsToJsonData items)
  | .map pairs isSet .. => if isSet then .set [] else .object (pairsToJsonData [] pairs)

def itemsToJsonData : List Tree → List Data
  | [] => []
  | item :: rest => item.toJsonData :: itemsToJsonData rest

def pairsToJsonData (fields : List (Text × Data)) : List Pair → List (Text × Data)
  | [] => fields
  | ⟨key, none⟩ :: rest => pairsToJsonData (Data.setField fields (fieldName key.toJsonData) .null) rest
  | ⟨key, some value⟩ :: rest =>
    pairsToJsonData (Data.setField fields (fieldName key.toJsonData) value.toJsonData) rest

end

/-- The text of a key. -/
def Tree.keyText : Tree → Text
  | .scalar value .. => value.toData.display
  | .aliasOf name _ => Text.unit '*' :: name
  | tree => tree.toJsonData.json

/-! ## Documents -/

/-- Things with anchors that begin before a place, last first; none for those that have
not ended yet, or that never do. -/
abbrev Anchored (α : Type) := List (Text × Option α)

namespace Anchored

variable {α : Type}

/-- The thing that an alias refers to. -/
def get? (table : Anchored α) (name : Text) : Option α :=
  (table.lookup name).join

/-- Note that something begins, with an anchor or without. -/
def begin (table : Anchored α) (anchor : Option Text) (a : Option α) : Anchored α :=
  match anchor with
  | some name => (name, a) :: table
  | none => table

/-- Change what is known of a thing that began behind `depth` others. -/
def complete (table : Anchored α) (depth : Nat) (anchor : Option Text)
    (f : Option α → Option α) : Anchored α :=
  match anchor with
  | some _ => table.modify (table.length - 1 - depth) fun entry => (entry.1, f entry.2)
  | none => table

end Anchored

mutual

/-- The document node of a tree, if conversion comes to an end, and the anchored nodes up
to the end of the tree. An alias to a node that has not ended never yields a node. -/
def Tree.toNode (place : Nat → Position) (anchors : Anchored Node) :
    Tree → Option Node × Anchored Node
  | .scalar value _ anchor offset =>
    let node := some (.scalar value.toScalar (some (place offset)))
    (node, (anchors.begin anchor none).complete anchors.length anchor fun _ => node)
  | .aliasOf name offset =>
    ((anchors.lookup name).getD (some (.scalar .null (some (place offset)))), anchors)
  | .seq items anchor offset =>
    let (items, inner) := itemsToNodes place (anchors.begin anchor none) items
    let node := items.map fun items => .list items (some (place offset))
    (node, inner.complete anchors.length anchor fun _ => node)
  | .map pairs _ anchor offset =>
    let (entries, inner) := pairsToEntries place (anchors.begin anchor none) pairs
    let node := entries.map fun entries => .mapping entries (some (place offset))
    (node, inner.complete anchors.length anchor fun _ => node)

def itemsToNodes (place : Nat → Position) (anchors : Anchored Node) :
    List Tree → Option (List Node) × Anchored Node
  | [] => (some [], anchors)
  | item :: rest =>
    let (node, anchors) := item.toNode place anchors
    let (nodes, anchors) := itemsToNodes place anchors rest
    (do return (← node) :: (← nodes), anchors)

/-- The entries of pairs. A key without a value has null, at its own position. A key is
converted for the anchors inside it only. If it holds an alias to the mapping that it stands
in, an alias elsewhere to a node in the key is taken not to end either, although following it
need not lead back to the key. -/
def pairsToEntries (place : Nat → Position) (anchors : Anchored Node) :
    List Pair → Option (List Entry) × Anchored Node
  | [] => (some [], anchors)
  | ⟨key, none⟩ :: rest =>
    let position := place key.offset
    let (_, anchors) := key.toNode place anchors
    let (entries, anchors) := pairsToEntries place anchors rest
    (do return ⟨key.keyText, .scalar .null (some position), some position⟩ :: (← entries), anchors)
  | ⟨key, some value⟩ :: rest =>
    let (_, anchors) := key.toNode place anchors
    let (node, anchors) := value.toNode place anchors
    let (entries, anchors) := pairsToEntries place anchors rest
    (do return ⟨key.keyText, ← node, some (place key.offset)⟩ :: (← entries), anchors)

end

/-! ## Data -/

/-- Why a tree cannot be made data. -/
inductive DataFault where
  | unresolvedAlias (name : Text)
  | tooManyAliases
  | mergeOfNoMap
  /-- A mapping is merged into itself. -/
  | endlessMerge

def DataFault.message : DataFault → Text
  | unresolvedAlias name => "Unresolved alias (the anchor must be set before the alias): " ++ name
  | tooManyAliases => "Excessive alias count indicates a resource exhaustion attack"
  | mergeOfNoMap => "Merge sources must be maps or map aliases"
  | endlessMerge => "Maximum call stack size exceeded"

/-- Data of the kind that a tree becomes, without content. -/
def Tree.shell : Tree → Data
  | .scalar value .. => value.toData
  | .aliasOf .. => .null
  | .seq .. => .list []
  | .map _ isSet .. => if isSet then .set [] else .object []

/-- What is known of an anchored node that is made data. -/
structure DataUse where
  /-- Only a shell until the node has ended. -/
  data : Data
  ended : Bool
  tree : Tree
  /-- How often the node is used, its own place included. -/
  uses : Nat
  /-- How much one use of it counts; 0 as long as there was none. -/
  weight : Nat

/-- How much uses may count together for one anchor. -/
def maxAliasWeight : Nat := 100

mutual

/-- How much one use of a tree counts: the most that any alias in it counts, and 1
for a scalar. -/
def Tree.weight (table : Anchored DataUse) : Tree → Nat
  | .scalar .. => 1
  | .aliasOf name _ =>
    match table.get? name with
    | some a => a.uses * a.weight
    | none => 0
  | .seq items .. => itemsWeight table items
  | .map pairs .. => pairsWeight table pairs

def itemsWeight (table : Anchored DataUse) : List Tree → Nat
  | [] => 0
  | item :: rest => max (item.weight table) (itemsWeight table rest)

def pairsWeight (table : Anchored DataUse) : List Pair → Nat
  | [] => 0
  | ⟨key, none⟩ :: rest => max (max (key.weight table) 1) (pairsWeight table rest)
  | ⟨key, some value⟩ :: rest =>
    max (max (key.weight table) (value.weight table)) (pairsWeight table rest)

end

/-- Making data, with the anchored nodes as state. -/
abbrev Making := StateT (Anchored DataUse) (Except DataFault)

/-- Replace the last thing with an anchor. -/
def Anchored.update {α : Type} (name : Text) (a : α) : Anchored α → Anchored α
  | [] => []
  | (n, b) :: rest => if n == name then (n, some a) :: rest else (n, b) :: update name a rest

/-- Use an anchored node. -/
def useAnchored (name : Text) : Making Data := do
  let table ← get
  match table.get? name with
  | none => throw (.unresolvedAlias name)
  | some a =>
    let weight := if a.weight = 0 then a.tree.weight table else a.weight
    let a := { a with uses := a.uses + 1, weight }
    set (table.update name a)
    if maxAliasWeight < a.uses * a.weight then throw .tooManyAliases
    return a.data

/-- Make data of the content of a node, and remember it under the node's anchor. -/
def remembering (tree : Tree) (content : Making Data) : Making Data := do
  let depth := (← get).length
  modify (·.begin tree.anchor (some ⟨tree.shell, false, tree, 1, 0⟩))
  let data ← content
  modify (·.complete depth tree.anchor fun use => use.map fun a => { a with data, ended := true })
  return data

/-- Does a tree refer to a node that has not ended? -/
def Tree.isOpen (table : Anchored DataUse) : Tree → Bool
  | .aliasOf name _ => (table.get? name).any fun a => !a.ended
  | _ => false

/-- Is the source of a merge, or one of several, a node that the merge stands in? -/
def Tree.mergesItself (table : Anchored DataUse) : Tree → Bool
  | .seq items .. => items.any (·.isOpen table)
  | tree => tree.isOpen table

/-- Add the fields of a merged object that are not there yet. -/
def mergeFields (fields : List (Text × Data)) : Data → Except DataFault (List (Text × Data))
  | .object merged =>
    .ok (merged.foldl (fun fs f => if fs.any (·.1 == f.1) then fs else fs ++ [f]) fields)
  | _ => .error .mergeOfNoMap

/-- Carry out a merge key. -/
def mergeInto (fields : List (Text × Data)) : Data → Except DataFault (List (Text × Data))
  | .list items => items.foldlM mergeFields fields
  | d => mergeFields fields d

mutual

/-- The data of a tree. -/
def Tree.toData : Tree → Making Data
  | .scalar value tagged anchor offset =>
    remembering (.scalar value tagged anchor offset) (pure value.toData)
  | .aliasOf name _ => useAnchored name
  | .seq items anchor offset =>
    remembering (.seq items anchor offset) do return .list (← itemsToData items)
  | .map pairs isSet anchor offset =>
    remembering (.map pairs isSet anchor offset) do
      let fields ← pairsToData [] pairs
      return if isSet then .set (fields.map fun f => .text f.1) else .object fields

def itemsToData : List Tree → Making (List Data)
  | [] => pure []
  | item :: rest => do
    let data ← item.toData
    return data :: (← itemsToData rest)

def pairsToData (fields : List (Text × Data)) : List Pair → Making (List (Text × Data))
  | [] => pure fields
  | ⟨.scalar .merge _ _ _, none⟩ :: _ => throw .mergeOfNoMap
  | ⟨key, none⟩ :: rest => do
    let k ← key.toData
    pairsToData (Data.setField fields (fieldName k) .null) rest
  | ⟨.scalar .merge _ _ _, some value⟩ :: rest => do
    if value.mergesItself (← get) then throw .endlessMerge
    let v ← value.toData
    pairsToData (← mergeInto fields v) rest
  | ⟨key, some value⟩ :: rest => do
    let k ← key.toData
    let v ← value.toData
    pairsToData (Data.setField fields (fieldName k) v) rest

end

end MetadataBlock.Yaml
