import MetadataBlock.Yaml.Value

/-!
# The node tree of a YAML document

A document is a tree of scalars, sequences and mappings. A node may carry an
anchor, and an alias stands for the last node with its anchor that comes before
it when the tree is read in order.
-/

namespace MetadataBlock.Yaml

mutual

/-- A node with the offset at which it begins. -/
inductive Tree where
  | scalar (value : Value) (tagged : Bool) (anchor : Option Text) (offset : Nat)
  | aliasOf (name : Text) (offset : Nat)
  | seq (items : List Tree) (anchor : Option Text) (offset : Nat)
  /-- A mapping, or a set if only the keys count. -/
  | map (pairs : List Pair) (isSet : Bool) (anchor : Option Text) (offset : Nat)

/-- A pair of a mapping; a key may stand without a value. -/
structure Pair where
  key : Tree
  value : Option Tree

end

namespace Tree

def offset : Tree → Nat
  | scalar _ _ _ offset | aliasOf _ offset | seq _ _ offset | map _ _ _ offset => offset

def anchor : Tree → Option Text
  | scalar _ _ anchor _ | seq _ anchor _ | map _ _ anchor _ => anchor
  | aliasOf .. => none

/-- The tree with an anchor, if there is one. -/
def withAnchor (anchor : Option Text) : Tree → Tree
  | scalar value tagged _ offset => scalar value tagged anchor offset
  | aliasOf name offset => aliasOf name offset
  | seq items _ offset => seq items anchor offset
  | map pairs isSet _ offset => map pairs isSet anchor offset

/-- Are two keys the same? Only scalars can be. -/
def sameKey : Tree → Tree → Bool
  | scalar a .., scalar b .. => a.same b
  | _, _ => false

/-- May the tree stand for the value of a set's member? -/
def isBareNull : Tree → Bool
  | scalar .null false _ _ => true
  | _ => false

end Tree

end MetadataBlock.Yaml
