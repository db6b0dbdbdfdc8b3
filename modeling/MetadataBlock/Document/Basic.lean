import MetadataBlock.Data.Basic

/-!
# Documents

A metadata block read from a file is a tree of scalars, lists and mappings. Every
node may know where it was written; positions are provenance only and no
decision depends on them.

- `Scalar`, `Node`, `Entry`, `Mapping`: the tree, a `Mapping` being the entries
  of a mapping node together with its position;
- `Mapping.entry?`, `Mapping.scalar?`, `Mapping.text?`: look-up of the first entry
  under a key;
- `Node.records`: the mappings in a list.
-/

namespace MetadataBlock

/-- A place in a source text, counted from 1. Tabular sources have no columns. -/
structure Position where
  line : Nat
  column : Option Nat
  deriving DecidableEq, Repr

/-- The value of a leaf. -/
inductive Scalar where
  | null
  | bool (b : Bool)
  | number (n : Number)
  | text (t : Text)
  deriving DecidableEq

namespace Scalar

/-- The text of a scalar as a reader would see it; null has none. -/
def text? : Scalar → Option Text
  | .null => none
  | .bool b => some (if b then "true" else "false")
  | .number n => some n.text
  | .text t => some t

/-- The scalar for a primitive value. Anything that is not null, a truth value, a
number or a text is kept as its displayed text, a date as its day; `none` stands
for a date that does not exist. -/
def ofData? : Data → Option Scalar
  | .absent => some .null
  | .null => some .null
  | .bool b => some (.bool b)
  | .number n => some (.number n)
  | .text t => some (.text t)
  | .date ms => (Moment.ofNumber? ms).map fun m => .text (m.isoText.take 10)
  | d => some (.text d.display)

/-- Equality of values: numbers compare as numbers. -/
def same : Scalar → Scalar → Bool
  | .null, .null => true
  | .bool a, .bool b => a == b
  | .number a, .number b => a.same b
  | .text a, .text b => a == b
  | _, _ => false

end Scalar

mutual

/-- A node of a document. -/
inductive Node where
  | scalar (value : Scalar) (position : Option Position)
  | list (items : List Node) (position : Option Position)
  | mapping (entries : List Entry) (position : Option Position)

/-- One entry of a mapping. Keys may repeat. -/
structure Entry where
  key : Text
  value : Node
  /-- Where the key itself was written, if known. -/
  keyPosition : Option Position

end

/-- A mapping node: its entries in order, and where it was written. -/
structure Mapping where
  entries : List Entry
  position : Option Position

/-- A whole metadata block: section keyword to list of records. -/
abbrev Document := Mapping

namespace Node

def position : Node → Option Position
  | .scalar _ p | .list _ p | .mapping _ p => p

/-- The name of the node's kind. -/
def kindName : Node → Text
  | .scalar .. => "scalar"
  | .list .. => "list"
  | .mapping .. => "mapping"

def isScalar : Node → Bool
  | .scalar .. => true
  | _ => false

def isMapping : Node → Bool
  | .mapping .. => true
  | _ => false

/-- The mapping that a node is. -/
def mapping? : Node → Option Mapping
  | .mapping entries position => some ⟨entries, position⟩
  | _ => none

/-- The mappings in a list. Any other node holds no records. -/
def records : Node → List Mapping
  | .list items _ => items.filterMap mapping?
  | _ => []

end Node

namespace Mapping

/-- The mapping as a node. -/
def toNode (m : Mapping) : Node :=
  .mapping m.entries m.position

/-- The keys in order, repetitions included. -/
def keys (m : Mapping) : List Text :=
  m.entries.map (·.key)

/-- The first value under a key. -/
def entry? (m : Mapping) (key : Text) : Option Node :=
  (m.entries.find? (·.key == key)).map (·.value)

/-- The scalar under a key with its position; a nested value counts as absent. -/
def scalarAt? (m : Mapping) (key : Text) : Option (Scalar × Option Position) :=
  match m.entry? key with
  | some (.scalar value position) => some (value, position)
  | _ => none

/-- The scalar under a key. -/
def scalar? (m : Mapping) (key : Text) : Option Scalar :=
  (m.scalarAt? key).map (·.1)

/-- The text under a key; none for an absent, null or nested value. -/
def text? (m : Mapping) (key : Text) : Option Text :=
  (m.scalar? key).bind Scalar.text?

end Mapping

end MetadataBlock
