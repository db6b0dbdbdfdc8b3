import MetadataBlock.Document.Basic
import MetadataBlock.Data.Json

/-!
# Views without positions

`Node.plain` forgets positions: of a repeated key the first value counts. The key
`__proto__` is reserved. It is no field but names what stands behind the object,
until nothing stands there any more; from then on it is a key like any other.
`Node.format` is the JSON text of the plain view. `Node.same` compares two nodes
entry by entry, repetitions included, and ignores positions.
-/

namespace MetadataBlock

/-- The key that a plain object does not take as a field at first. -/
def reservedKey : Text := "__proto__"

/-- Keep the first field of every name. -/
def firstFields (fields : List (Text × Data)) : List (Text × Data) :=
  fields.foldl (fun kept f => if kept.any (·.1 == f.1) then kept else kept ++ [f]) []

/-- The plain value of a scalar. -/
def Scalar.plain : Scalar → Data
  | .null => .null
  | .bool b => .bool b
  | .number n => .number n
  | .text t => .text t

namespace Node

mutual

/-- Does nothing stand behind an object whose reserved key has this value? That is so
for null, and for an object that nothing stands behind itself. -/
def leavesNothing : Node → Bool
  | .scalar .null _ => true
  | .scalar .. | .list .. => false
  | .mapping entries _ => anyLeavesNothing entries

def anyLeavesNothing : List Entry → Bool
  | [] => false
  | ⟨key, value, _⟩ :: rest => key == reservedKey && leavesNothing value || anyLeavesNothing rest

end

mutual

/-- The node as plain data. -/
def plain : Node → Data
  | .scalar value _ => value.plain
  | .list items _ => .list (plainItems items)
  | .mapping entries _ => .object (firstFields (plainEntries false entries))

def plainItems : List Node → List Data
  | [] => []
  | item :: rest => plain item :: plainItems rest

/-- The fields of an object. `alone` tells whether nothing stands behind it, so that the
reserved key is a field. -/
def plainEntries (alone : Bool) : List Entry → List (Text × Data)
  | [] => []
  | ⟨key, value, _⟩ :: rest =>
    if key == reservedKey && !alone then plainEntries (leavesNothing value) rest
    else (key, plain value) :: plainEntries alone rest

end

/-- The compact text of a node, without positions. -/
def format (n : Node) : Text :=
  n.plain.json

mutual

/-- Equality of structure, keys and values; positions do not count. -/
def same : Node → Node → Bool
  | .scalar a _, .scalar b _ => a.same b
  | .list a _, .list b _ => sameItems a b
  | .mapping a _, .mapping b _ => sameEntries a b
  | _, _ => false

def sameItems : List Node → List Node → Bool
  | [], [] => true
  | a :: as, b :: bs => same a b && sameItems as bs
  | _, _ => false

def sameEntries : List Entry → List Entry → Bool
  | [], [] => true
  | ⟨key, value, _⟩ :: as, ⟨key', value', _⟩ :: bs =>
    key == key' && same value value' && sameEntries as bs
  | _, _ => false

end

end Node

end MetadataBlock
