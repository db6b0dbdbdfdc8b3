import Mathlib.Data.List.Basic
import MetadataBlock.Yaml.Conversion

/-!
# Aliases stand for their targets

Making a document of a tree, a table holds what became of the anchored nodes, so that every
node is converted once. What an alias means is said without the table here: it refers to the
last node with its anchor that begins before it, and that node is converted in its own place,
where the aliases inside it may mean other nodes. No alias may stand inside its own target, or
the pass may make no node at all.

- `Tree.nodes`, `lastAnchored?`, `pointsBack`: the order in which nodes begin, the target of an
  alias, and the trees in which every target ends before its alias;
- `Converts`: conversion that goes on at the target of an alias;
- `Expands`: the tree in which aliases are replaced by what their targets expand to; the key of
  a pair is left as it is written;
- `Knows`: what the table holds; `Knows.lookup_of_some`: it leads to the target of an alias;
- `toNode_sound`: a pass over a part of the tree, with what it notes in the table;
- `Converts.exists_expansion`, `Expands.unique`: there is one expansion, without aliases, and
  it becomes the same node;
- `exists_node_of_pointsBack`, `toNode_expansion`: all of it for a whole tree.
-/

namespace MetadataBlock.Yaml

/-! ## The order of the nodes -/

mutual

/-- The nodes of a tree in the order in which they begin, those of keys included. -/
def Tree.nodes : Tree → List Tree
  | .scalar value tagged anchor offset => [.scalar value tagged anchor offset]
  | .aliasOf name offset => [.aliasOf name offset]
  | .seq items anchor offset => .seq items anchor offset :: itemNodes items
  | .map pairs isSet anchor offset => .map pairs isSet anchor offset :: pairNodes pairs

def itemNodes : List Tree → List Tree
  | [] => []
  | item :: rest => item.nodes ++ itemNodes rest

def pairNodes : List Pair → List Tree
  | [] => []
  | ⟨key, none⟩ :: rest => key.nodes ++ pairNodes rest
  | ⟨key, some value⟩ :: rest => key.nodes ++ (value.nodes ++ pairNodes rest)

end

/-- The last node with an anchor among nodes that are given last first, and those that begin
before it. -/
def lastAnchored? (name : Text) : List Tree → Option (Tree × List Tree)
  | [] => none
  | node :: earlier =>
    if node.anchor = some name then some (node, earlier) else lastAnchored? name earlier

/-- Does an alias stand behind its target, and not inside it? A node takes up as many places
as it has nodes, from the place where it begins. -/
def standsBehind (before : List Tree) : Tree → Bool
  | .aliasOf name _ =>
    match lastAnchored? name before with
    | some (target, earlier) => earlier.length + target.nodes.length ≤ before.length
    | none => true
  | _ => true

/-- No alias among some nodes stands inside the node that it refers to. -/
def pointsBack (before : List Tree) : List Tree → Bool
  | [] => true
  | node :: rest => standsBehind before node && pointsBack (node :: before) rest

/-- The second part of a list of nodes is looked at with the first part in front of it. The
nodes before a place are kept last first, so the first part is turned around. -/
theorem pointsBack_append (before front back : List Tree) :
    pointsBack before (front ++ back)
      = (pointsBack before front && pointsBack (front.reverse ++ before) back) := by
  induction front generalizing before with
  | nil => rfl
  | cons node front ih =>
    rw [List.cons_append, pointsBack, pointsBack, ih, List.reverse_cons, List.append_assoc,
      List.singleton_append, Bool.and_assoc]

/-! ## Conversion that follows aliases -/

section

variable (place : Nat → Position)

mutual

/-- The document node of a tree that stands behind some nodes, the last of them first. An alias
leads on to its target, in the place of the target. -/
inductive Converts : List Tree → Tree → Node → Prop
  | scalar {before value tagged anchor offset} :
    Converts before (.scalar value tagged anchor offset)
      (.scalar value.toScalar (some (place offset)))
  | followed {before name offset target earlier node}
    (htarget : lastAnchored? name before = some (target, earlier))
    (hnode : Converts earlier target node) : Converts before (.aliasOf name offset) node
  | dangling {before name offset} (htarget : lastAnchored? name before = none) :
    Converts before (.aliasOf name offset) (.scalar .null (some (place offset)))
  | seq {before items anchor offset nodes}
    (hitems : ConvertsItems (.seq items anchor offset :: before) items nodes) :
    Converts before (.seq items anchor offset) (.list nodes (some (place offset)))
  | map {before pairs isSet anchor offset entries}
    (hpairs : ConvertsPairs (.map pairs isSet anchor offset :: before) pairs entries) :
    Converts before (.map pairs isSet anchor offset) (.mapping entries (some (place offset)))

inductive ConvertsItems : List Tree → List Tree → List Node → Prop
  | nil {before} : ConvertsItems before [] []
  | cons {before item rest node nodes} (hitem : Converts before item node)
    (hrest : ConvertsItems (item.nodes.reverse ++ before) rest nodes) :
    ConvertsItems before (item :: rest) (node :: nodes)

/-- The key of an entry is the text of the key as it is written. -/
inductive ConvertsPairs : List Tree → List Pair → List Entry → Prop
  | nil {before} : ConvertsPairs before [] []
  | bare {before key rest entries}
    (hrest : ConvertsPairs (key.nodes.reverse ++ before) rest entries) :
    ConvertsPairs before (⟨key, none⟩ :: rest)
      (⟨key.keyText, .scalar .null (some (place key.offset)), some (place key.offset)⟩ :: entries)
  | cons {before key value rest node entries}
    (hvalue : Converts (key.nodes.reverse ++ before) value node)
    (hrest : ConvertsPairs (value.nodes.reverse ++ (key.nodes.reverse ++ before)) rest entries) :
    ConvertsPairs before (⟨key, some value⟩ :: rest)
      (⟨key.keyText, node, some (place key.offset)⟩ :: entries)

end

end

/-! ## Expansion -/

mutual

/-- The tree with every alias in the place of a value or an item replaced by the expansion of
its target, and by null if it has none. -/
inductive Expands : List Tree → Tree → Tree → Prop
  | scalar {before value tagged anchor offset} :
    Expands before (.scalar value tagged anchor offset) (.scalar value tagged anchor offset)
  | followed {before name offset target earlier tree}
    (htarget : lastAnchored? name before = some (target, earlier))
    (htree : Expands earlier target tree) : Expands before (.aliasOf name offset) tree
  | dangling {before name offset} (htarget : lastAnchored? name before = none) :
    Expands before (.aliasOf name offset) (.scalar .null false none offset)
  | seq {before items anchor offset items'}
    (hitems : ExpandsItems (.seq items anchor offset :: before) items items') :
    Expands before (.seq items anchor offset) (.seq items' anchor offset)
  | map {before pairs isSet anchor offset pairs'}
    (hpairs : ExpandsPairs (.map pairs isSet anchor offset :: before) pairs pairs') :
    Expands before (.map pairs isSet anchor offset) (.map pairs' isSet anchor offset)

inductive ExpandsItems : List Tree → List Tree → List Tree → Prop
  | nil {before} : ExpandsItems before [] []
  | cons {before item rest item' rest'} (hitem : Expands before item item')
    (hrest : ExpandsItems (item.nodes.reverse ++ before) rest rest') :
    ExpandsItems before (item :: rest) (item' :: rest')

inductive ExpandsPairs : List Tree → List Pair → List Pair → Prop
  | nil {before} : ExpandsPairs before [] []
  | bare {before key rest rest'}
    (hrest : ExpandsPairs (key.nodes.reverse ++ before) rest rest') :
    ExpandsPairs before (⟨key, none⟩ :: rest) (⟨key, none⟩ :: rest')
  | cons {before key value rest value' rest'}
    (hvalue : Expands (key.nodes.reverse ++ before) value value')
    (hrest : ExpandsPairs (value.nodes.reverse ++ (key.nodes.reverse ++ before)) rest rest') :
    ExpandsPairs before (⟨key, some value⟩ :: rest) (⟨key, some value'⟩ :: rest')

end

mutual

/-- No alias stands in the place of a value or an item. -/
def Tree.AliasFree : Tree → Prop
  | .scalar .. => True
  | .aliasOf .. => False
  | .seq items .. => AliasFreeItems items
  | .map pairs .. => AliasFreePairs pairs

def AliasFreeItems : List Tree → Prop
  | [] => True
  | item :: rest => item.AliasFree ∧ AliasFreeItems rest

def AliasFreePairs : List Pair → Prop
  | [] => True
  | ⟨_, none⟩ :: rest => AliasFreePairs rest
  | ⟨_, some value⟩ :: rest => value.AliasFree ∧ AliasFreePairs rest

end

mutual

/-- A tree has one expansion. The induction is on the first of the two derivations; an alias
has one target, so both go on at the same tree, in front of the same nodes. -/
theorem Expands.unique {before : List Tree} {tree tree₁ tree₂ : Tree} :
    Expands before tree tree₁ → Expands before tree tree₂ → tree₁ = tree₂
  | .scalar, .scalar => rfl
  | .followed htarget htree, .followed htarget' htree' => by
    obtain ⟨rfl, rfl⟩ := Prod.mk.inj (Option.some.inj (htarget.symm.trans htarget'))
    exact htree.unique htree'
  | .followed htarget _, .dangling hnone | .dangling hnone, .followed htarget _ =>
    nomatch hnone.symm.trans htarget
  | .dangling _, .dangling _ => rfl
  | .seq hitems, .seq hitems' => by rw [hitems.unique hitems']
  | .map hpairs, .map hpairs' => by rw [hpairs.unique hpairs']

theorem ExpandsItems.unique {before items items₁ items₂ : List Tree} :
    ExpandsItems before items items₁ → ExpandsItems before items items₂ → items₁ = items₂
  | .nil, .nil => rfl
  | .cons hitem hrest, .cons hitem' hrest' => by rw [hitem.unique hitem', hrest.unique hrest']

theorem ExpandsPairs.unique {before : List Tree} {pairs pairs₁ pairs₂ : List Pair} :
    ExpandsPairs before pairs pairs₁ → ExpandsPairs before pairs pairs₂ → pairs₁ = pairs₂
  | .nil, .nil => rfl
  | .bare hrest, .bare hrest' => by rw [hrest.unique hrest']
  | .cons hvalue hrest, .cons hvalue' hrest' => by
    rw [hvalue.unique hvalue', hrest.unique hrest']

end

section

variable {place : Nat → Position} {table : Anchored Node}

/-! What a pass makes of a node, if there is something that it makes of each part. -/

/-- What a pass makes of a sequence, if there is something that it makes of the items. The
entry of the sequence itself is filled in afterwards, and does not change the node. -/
theorem fst_toNode_seq {items : List Tree} {anchor : Option Text} {nodes : List Node}
    (h : (itemsToNodes place (table.begin anchor none) items).1 = some nodes) (offset : Nat) :
    ((Tree.seq items anchor offset).toNode place table).1
      = some (.list nodes (some (place offset))) :=
  congrArg (Option.map fun items => Node.list items (some (place offset))) h

theorem fst_toNode_map {pairs : List Pair} {anchor : Option Text} {entries : List Entry}
    (h : (pairsToEntries place (table.begin anchor none) pairs).1 = some entries) (isSet : Bool)
    (offset : Nat) :
    ((Tree.map pairs isSet anchor offset).toNode place table).1
      = some (.mapping entries (some (place offset))) :=
  congrArg (Option.map fun entries => Node.mapping entries (some (place offset))) h

theorem fst_itemsToNodes_cons {item : Tree} {rest : List Tree} {node : Node} {nodes : List Node}
    (hitem : (item.toNode place table).1 = some node)
    (hrest : (itemsToNodes place (item.toNode place table).2 rest).1 = some nodes) :
    (itemsToNodes place table (item :: rest)).1 = some (node :: nodes) := by
  simp only [itemsToNodes, hitem, hrest]
  rfl

theorem fst_pairsToEntries_bare {key : Tree} {rest : List Pair} {entries : List Entry}
    (hrest : (pairsToEntries place (key.toNode place table).2 rest).1 = some entries) :
    (pairsToEntries place table (⟨key, none⟩ :: rest)).1
      = some (⟨key.keyText, .scalar .null (some (place key.offset)), some (place key.offset)⟩
        :: entries) := by
  simp only [pairsToEntries, hrest]
  rfl

theorem fst_pairsToEntries_cons {key value : Tree} {rest : List Pair} {node : Node}
    {entries : List Entry}
    (hvalue : (value.toNode place (key.toNode place table).2).1 = some node)
    (hrest : (pairsToEntries place (value.toNode place (key.toNode place table).2).2 rest).1
      = some entries) :
    (pairsToEntries place table (⟨key, some value⟩ :: rest)).1
      = some (⟨key.keyText, node, some (place key.offset)⟩ :: entries) := by
  simp only [pairsToEntries, hvalue, hrest]
  rfl

end

section

variable {place : Nat → Position}

mutual

/-- Where conversion comes to an end there is an expansion. It has no aliases, and it becomes
the same node whatever the table holds, since only aliases look into the table. The induction
is on the derivation: at an alias both go on at the target. -/
theorem Converts.exists_expansion {before : List Tree} {tree : Tree} {node : Node} :
    Converts place before tree node → ∃ tree', Expands before tree tree' ∧ tree'.AliasFree
      ∧ ∀ table, (tree'.toNode place table).1 = some node
  | .scalar => ⟨_, .scalar, trivial, fun _ => rfl⟩
  | .followed htarget hnode => by
    obtain ⟨tree', hexpands, hfree, hsame⟩ := hnode.exists_expansion
    exact ⟨tree', .followed htarget hexpands, hfree, hsame⟩
  | .dangling htarget => ⟨_, .dangling htarget, trivial, fun _ => rfl⟩
  | .seq hitems => by
    obtain ⟨items', hexpands, hfree, hsame⟩ := hitems.exists_expansion
    exact ⟨_, .seq hexpands, hfree, fun _ => fst_toNode_seq (hsame _) _⟩
  | .map hpairs => by
    obtain ⟨pairs', hexpands, hfree, hsame⟩ := hpairs.exists_expansion
    exact ⟨_, .map hexpands, hfree, fun _ => fst_toNode_map (hsame _) _ _⟩

theorem ConvertsItems.exists_expansion {before items : List Tree} {nodes : List Node} :
    ConvertsItems place before items nodes → ∃ items', ExpandsItems before items items'
      ∧ AliasFreeItems items' ∧ ∀ table, (itemsToNodes place table items').1 = some nodes
  | .nil => ⟨_, .nil, trivial, fun _ => rfl⟩
  | .cons hitem hrest => by
    obtain ⟨item', hexpands, hfree, hsame⟩ := hitem.exists_expansion
    obtain ⟨rest', hexpands', hfree', hsame'⟩ := hrest.exists_expansion
    exact ⟨_, .cons hexpands hexpands', ⟨hfree, hfree'⟩,
      fun _ => fst_itemsToNodes_cons (hsame _) (hsame' _)⟩

theorem ConvertsPairs.exists_expansion {before : List Tree} {pairs : List Pair}
    {entries : List Entry} :
    ConvertsPairs place before pairs entries → ∃ pairs', ExpandsPairs before pairs pairs'
      ∧ AliasFreePairs pairs' ∧ ∀ table, (pairsToEntries place table pairs').1 = some entries
  | .nil => ⟨_, .nil, trivial, fun _ => rfl⟩
  | .bare hrest => by
    obtain ⟨rest', hexpands, hfree, hsame⟩ := hrest.exists_expansion
    exact ⟨_, .bare hexpands, hfree, fun _ => fst_pairsToEntries_bare (hsame _)⟩
  | .cons hvalue hrest => by
    obtain ⟨value', hexpands, hfree, hsame⟩ := hvalue.exists_expansion
    obtain ⟨rest', hexpands', hfree', hsame'⟩ := hrest.exists_expansion
    exact ⟨_, .cons hexpands hexpands', ⟨hfree, hfree'⟩,
      fun _ => fst_pairsToEntries_cons (hsame _) (hsame' _)⟩

end

end

/-! ## The table -/

namespace Anchored

variable {α : Type}

theorem lookup_cons_of_ne (table : Anchored α) {name name' : Text} (h : name ≠ name')
    (entry : Option α) : List.lookup name' ((name, entry) :: table) = table.lookup name' := by
  rw [List.lookup_cons, beq_false_of_ne (Ne.symm h)]

/-- What began in front of some other things is filled in in its place, since a table grows
in front only. -/
theorem complete_append (added table : Anchored α) (name : Text) (a : Option α)
    (f : Option α → Option α) :
    complete (added ++ (name, a) :: table) table.length (some name) f
      = added ++ (name, f a) :: table := by
  have hplace : (added ++ (name, a) :: table).length - 1 - table.length = added.length + 0 := by
    rw [List.length_append, List.length_cons]
    omega
  rw [complete, List.modify, hplace, List.modifyTailIdx_add]
  rfl

end Anchored

section

variable {place : Nat → Position} {limit : Nat} {before : List Tree} {table : Anchored Node}

/-- What the table holds of the nodes that begin before a place, both last first: what has
ended there became a node, and what has not reaches up to the limit at least. -/
inductive Knows (place : Nat → Position) (limit : Nat) : List Tree → Anchored Node → Prop
  | start : Knows place limit [] []
  | skip {before table tree} (hbefore : Knows place limit before table)
    (hanchor : tree.anchor = none) : Knows place limit (tree :: before) table
  | begun {before table tree name} (hbefore : Knows place limit before table)
    (hanchor : tree.anchor = some name) (hend : limit ≤ before.length + tree.nodes.length) :
    Knows place limit (tree :: before) ((name, none) :: table)
  | ended {before table tree name node} (hbefore : Knows place limit before table)
    (hanchor : tree.anchor = some name) (hnode : Converts place before tree node) :
    Knows place limit (tree :: before) ((name, some node) :: table)

/-- What reaches up to a limit reaches up to any lower one. -/
theorem Knows.mono {limit' : Nat} (h : Knows place limit before table) (hle : limit' ≤ limit) :
    Knows place limit' before table := by
  induction h with
  | start => exact .start
  | skip _ hanchor ih => exact .skip ih hanchor
  | begun _ hanchor hend ih => exact .begun ih hanchor (Nat.le_trans hle hend)
  | ended _ hanchor hnode ih => exact .ended ih hanchor hnode

/-- A name without a target is not in the table. Nodes and entries come in the same order, so
the look-up and the search for the target pass by the same names. -/
theorem Knows.lookup_of_none {name : Text} (h : Knows place limit before table)
    (hnone : lastAnchored? name before = none) : table.lookup name = none := by
  induction h with
  | start => rfl
  | skip _ hanchor ih =>
    rw [lastAnchored?, hanchor, if_neg (by simp)] at hnone
    exact ih hnone
  | begun _ hanchor _ ih | ended _ hanchor _ ih =>
    rw [lastAnchored?, hanchor] at hnone
    split at hnone
    · cases hnone
    · next hname =>
      rw [Anchored.lookup_cons_of_ne _ fun heq => hname (congrArg some heq)]
      exact ih hnone

/-- A target that ends in front of the limit has become a node. The entry that is found first
belongs to the target itself; it cannot be one that is still open, as those reach up to the
limit. -/
theorem Knows.lookup_of_some {name : Text} {target : Tree} {earlier : List Tree}
    (h : Knows place limit before table)
    (htarget : lastAnchored? name before = some (target, earlier))
    (hend : earlier.length + target.nodes.length < limit) :
    ∃ node, table.lookup name = some (some node) ∧ Converts place earlier target node := by
  induction h with
  | start => cases htarget
  | skip _ hanchor ih =>
    rw [lastAnchored?, hanchor, if_neg (by simp)] at htarget
    exact ih htarget
  | begun _ hanchor hopen ih =>
    rw [lastAnchored?, hanchor] at htarget
    split at htarget
    · cases htarget
      -- a target that is still open ends behind the limit
      omega
    · next hname =>
      rw [Anchored.lookup_cons_of_ne _ fun heq => hname (congrArg some heq)]
      exact ih htarget
  | ended _ hanchor hnode ih =>
    rw [lastAnchored?, hanchor] at htarget
    split at htarget
    · next hname =>
      cases htarget
      cases hname
      exact ⟨_, List.lookup_cons_self, hnode⟩
    · next hname =>
      rw [Anchored.lookup_cons_of_ne _ fun heq => hname (congrArg some heq)]
      exact ih htarget

/-- A node begins that reaches no further than the others do. From here on it is the one that
ends first, so its end is the new limit. -/
theorem Knows.begin {tree : Tree} (h : Knows place limit before table)
    (hend : before.length + tree.nodes.length ≤ limit) :
    Knows place (before.length + tree.nodes.length) (tree :: before)
      (table.begin tree.anchor none) := by
  have hbefore := h.mono hend
  cases hanchor : tree.anchor with
  | none => exact .skip hbefore hanchor
  | some name => exact .begun hbefore hanchor (Nat.le_refl _)

/-- What the table holds behind some nodes, all of which have ended: their entries in front of
those that were there. -/
def Notes (place : Nat → Position) (before nodes : List Tree) (table table' : Anchored Node) :
    Prop :=
  ∃ added, table' = added ++ table ∧ ∀ limit table, Knows place limit before table →
    Knows place limit (nodes.reverse ++ before) (added ++ table)

/-- Behind the nodes of a part the table holds what became of them, and what it held before. -/
theorem Notes.knows {nodes : List Tree} {table' : Anchored Node}
    (h : Notes place before nodes table table') (hbefore : Knows place limit before table) :
    Knows place limit (nodes.reverse ++ before) table' := by
  obtain ⟨added, rfl, hadded⟩ := h
  exact hadded limit table hbefore

theorem Notes.nil : Notes place before [] table table :=
  ⟨[], rfl, fun _ _ hbefore => hbefore⟩

theorem Notes.skip {tree : Tree} (hanchor : tree.anchor = none) :
    Notes place before [tree] table table :=
  ⟨[], rfl, fun _ _ hbefore => .skip hbefore hanchor⟩

/-- Two parts that follow each other: the entries of the second are put in front of those of
the first. -/
theorem Notes.append {front back : List Tree} {table₁ table₂ : Anchored Node}
    (h : Notes place before front table table₁)
    (h' : Notes place (front.reverse ++ before) back table₁ table₂) :
    Notes place before (front ++ back) table table₂ := by
  obtain ⟨added, rfl, hadded⟩ := h
  obtain ⟨added', rfl, hadded'⟩ := h'
  refine ⟨added' ++ added, (List.append_assoc _ _ _).symm, fun limit table hbefore => ?_⟩
  rw [List.reverse_append, List.append_assoc, List.append_assoc]
  exact hadded' limit _ (hadded limit table hbefore)

/-- A node that has ended has its own entry behind those of its parts. The parts were noted on
top of the open entry of the node, and filling it in leaves them where they are. -/
theorem Notes.complete {tree : Tree} {node : Node} {inner : List Tree} {table' : Anchored Node}
    (h : Notes place (tree :: before) inner (table.begin tree.anchor none) table')
    (hnode : Converts place before tree node) :
    Notes place before (tree :: inner) table
      (table'.complete table.length tree.anchor fun _ => some node) := by
  obtain ⟨added, rfl, hadded⟩ := h
  cases hanchor : tree.anchor with
  | none =>
    refine ⟨added, rfl, fun limit table hbefore => ?_⟩
    rw [List.reverse_cons, List.append_assoc, List.singleton_append]
    exact hadded limit table (.skip hbefore hanchor)
  | some name =>
    refine ⟨added ++ [(name, some node)], ?_, fun limit table hbefore => ?_⟩
    · rw [List.append_assoc]
      exact Anchored.complete_append added table name none fun _ => some node
    · rw [List.reverse_cons, List.append_assoc, List.append_assoc, List.singleton_append]
      exact hadded limit _ (.ended hbefore hanchor hnode)

/-! ## A pass over a tree -/

/-- The table leads an alias to what its target became. The target ends in front of the alias,
and so in front of the limit. -/
theorem Knows.converts_alias {name : Text} {offset : Nat} (h : Knows place limit before table)
    (hend : before.length < limit) (hbehind : standsBehind before (.aliasOf name offset) = true) :
    ∃ node, ((Tree.aliasOf name offset).toNode place table).1 = some node
      ∧ Converts place before (.aliasOf name offset) node := by
  rw [Tree.toNode]
  cases htarget : lastAnchored? name before with
  | none =>
    rw [h.lookup_of_none htarget]
    exact ⟨_, rfl, .dangling htarget⟩
  | some found =>
    obtain ⟨target, earlier⟩ := found
    have hended : earlier.length + target.nodes.length ≤ before.length := by
      rw [standsBehind, htarget] at hbehind
      exact of_decide_eq_true hbehind
    obtain ⟨node, hget, hnode⟩ := h.lookup_of_some htarget (Nat.lt_of_le_of_lt hended hend)
    rw [hget]
    exact ⟨node, rfl, .followed htarget hnode⟩

theorem length_front {nodes rest : List Tree}
    (h : before.length + (nodes ++ rest).length ≤ limit) : before.length + nodes.length ≤ limit := by
  rw [List.length_append] at h
  omega

theorem length_behind {nodes rest : List Tree}
    (h : before.length + (nodes ++ rest).length ≤ limit) :
    (nodes.reverse ++ before).length + rest.length ≤ limit := by
  rw [List.length_append] at h
  rw [List.length_append, List.length_reverse]
  omega

mutual

/-- A pass over a part of a tree makes a node, the one that following its aliases leads to, and
it notes what became of the nodes of the part. The cases are those of the pass: the table is
carried from each part to the next one, and the entry of a node is filled in behind its parts.
What the table knows at the start carries the induction, with the end of the part as a bound
for the limit. -/
theorem toNode_sound : ∀ (tree : Tree) {before : List Tree} {limit : Nat} {table : Anchored Node},
    Knows place limit before table → before.length + tree.nodes.length ≤ limit →
    pointsBack before tree.nodes = true →
      (∃ node, (tree.toNode place table).1 = some node ∧ Converts place before tree node)
        ∧ Notes place before tree.nodes table (tree.toNode place table).2
  | .scalar value tagged anchor offset, before, _, table, _, _, _ => by
    have hnode : Converts place before (.scalar value tagged anchor offset) _ := .scalar
    exact ⟨⟨_, rfl, hnode⟩, Notes.nil.complete hnode⟩
  | .aliasOf name offset, before, _, table, hknows, hend, hback =>
    ⟨hknows.converts_alias hend (Bool.and_eq_true_iff.mp hback).1, .skip rfl⟩
  | .seq items anchor offset, before, _, table, hknows, hend, hback => by
    have hinner : (Tree.seq items anchor offset :: before).length + (itemNodes items).length
        ≤ before.length + (Tree.seq items anchor offset).nodes.length := by
      simp only [Tree.nodes, List.length_cons]
      omega
    obtain ⟨⟨nodes, hmade, hitems⟩, hnotes⟩ :=
      itemsToNodes_sound items (hknows.begin hend) hinner (Bool.and_eq_true_iff.mp hback).2
    have hnode : Converts place before (.seq items anchor offset) _ := .seq hitems
    have hsome := fst_toNode_seq hmade offset
    refine ⟨⟨_, hsome, hnode⟩, ?_⟩
    have hcomplete := hnotes.complete hnode
    rw [← hsome] at hcomplete
    exact hcomplete
  | .map pairs isSet anchor offset, before, _, table, hknows, hend, hback => by
    have hinner : (Tree.map pairs isSet anchor offset :: before).length + (pairNodes pairs).length
        ≤ before.length + (Tree.map pairs isSet anchor offset).nodes.length := by
      simp only [Tree.nodes, List.length_cons]
      omega
    obtain ⟨⟨entries, hmade, hpairs⟩, hnotes⟩ :=
      pairsToEntries_sound pairs (hknows.begin hend) hinner (Bool.and_eq_true_iff.mp hback).2
    have hnode : Converts place before (.map pairs isSet anchor offset) _ := .map hpairs
    have hsome := fst_toNode_map hmade isSet offset
    refine ⟨⟨_, hsome, hnode⟩, ?_⟩
    have hcomplete := hnotes.complete hnode
    rw [← hsome] at hcomplete
    exact hcomplete

theorem itemsToNodes_sound : ∀ (items : List Tree) {before : List Tree} {limit : Nat}
    {table : Anchored Node}, Knows place limit before table →
    before.length + (itemNodes items).length ≤ limit → pointsBack before (itemNodes items) = true →
      (∃ nodes, (itemsToNodes place table items).1 = some nodes
          ∧ ConvertsItems place before items nodes)
        ∧ Notes place before (itemNodes items) table (itemsToNodes place table items).2
  | [], _, _, _, _, _, _ => ⟨⟨[], rfl, .nil⟩, .nil⟩
  | item :: rest, before, limit, table, hknows, hend, hback => by
    rw [itemNodes] at hend
    rw [itemNodes, pointsBack_append, Bool.and_eq_true_iff] at hback
    obtain ⟨⟨node, hmade, hitem⟩, hnotes⟩ := toNode_sound item hknows (length_front hend) hback.1
    obtain ⟨⟨nodes, hmade', hrest⟩, hnotes'⟩ :=
      itemsToNodes_sound rest (hnotes.knows hknows) (length_behind hend) hback.2
    exact ⟨⟨_, fst_itemsToNodes_cons hmade hmade', .cons hitem hrest⟩, hnotes.append hnotes'⟩

theorem pairsToEntries_sound : ∀ (pairs : List Pair) {before : List Tree} {limit : Nat}
    {table : Anchored Node}, Knows place limit before table →
    before.length + (pairNodes pairs).length ≤ limit → pointsBack before (pairNodes pairs) = true →
      (∃ entries, (pairsToEntries place table pairs).1 = some entries
          ∧ ConvertsPairs place before pairs entries)
        ∧ Notes place before (pairNodes pairs) table (pairsToEntries place table pairs).2
  | [], _, _, _, _, _, _ => ⟨⟨[], rfl, .nil⟩, .nil⟩
  | ⟨key, none⟩ :: rest, before, limit, table, hknows, hend, hback => by
    rw [pairNodes] at hend
    rw [pairNodes, pointsBack_append, Bool.and_eq_true_iff] at hback
    -- the node of a key is not used, but its anchors are
    obtain ⟨-, hnotes⟩ := toNode_sound key hknows (length_front hend) hback.1
    obtain ⟨⟨entries, hmade, hrest⟩, hnotes'⟩ :=
      pairsToEntries_sound rest (hnotes.knows hknows) (length_behind hend) hback.2
    exact ⟨⟨_, fst_pairsToEntries_bare hmade, .bare hrest⟩, hnotes.append hnotes'⟩
  | ⟨key, some value⟩ :: rest, before, limit, table, hknows, hend, hback => by
    rw [pairNodes] at hend
    rw [pairNodes, pointsBack_append, pointsBack_append, Bool.and_eq_true_iff,
      Bool.and_eq_true_iff] at hback
    obtain ⟨-, hnotes⟩ := toNode_sound key hknows (length_front hend) hback.1
    have hbehind := length_behind hend
    obtain ⟨⟨node, hmade, hvalue⟩, hnotes'⟩ :=
      toNode_sound value (hnotes.knows hknows) (length_front hbehind) hback.2.1
    obtain ⟨⟨entries, hmade', hrest⟩, hnotes''⟩ := pairsToEntries_sound rest
      (hnotes'.knows (hnotes.knows hknows)) (length_behind hbehind) hback.2.2
    exact ⟨⟨_, fst_pairsToEntries_cons hmade hmade', .cons hvalue hrest⟩,
      hnotes.append (hnotes'.append hnotes'')⟩

end

end

/-- In a tree where no alias stands inside its own target the pass makes a node, the one that
following the aliases leads to. At the start there are no nodes and the table is empty. -/
theorem exists_node_of_pointsBack {root : Tree} (h : pointsBack [] root.nodes = true)
    (place : Nat → Position) :
    ∃ node, (root.toNode place []).1 = some node ∧ Converts place [] root node := by
  have hwhole : ([] : List Tree).length + root.nodes.length ≤ root.nodes.length :=
    Nat.le_of_eq (Nat.zero_add _)
  exact (toNode_sound root (.start : Knows place _ [] []) hwhole h).1

/-- Aliases are transparent. In a tree where no alias stands inside its own target, following
the aliases comes to an end, at the node that the pass makes and at no other. The tree has one
expansion, which has no aliases, and it becomes the same node. Two ways to follow the aliases
have expansions that are the same tree, and so they end at one node. -/
theorem toNode_expansion {root : Tree} (h : pointsBack [] root.nodes = true)
    (place : Nat → Position) :
    (∃ node, (root.toNode place []).1 = some node)
      ∧ (∀ node, Converts place [] root node ↔ some node = (root.toNode place []).1)
      ∧ (∃ tree, Expands [] root tree)
      ∧ ∀ tree, Expands [] root tree →
          tree.AliasFree ∧ (tree.toNode place []).1 = (root.toNode place []).1 := by
  obtain ⟨node, hmade, hnode⟩ := exists_node_of_pointsBack h place
  obtain ⟨tree, hexpands, hfree, hsame⟩ := hnode.exists_expansion
  rw [hmade]
  refine ⟨⟨node, rfl⟩, fun node' => ⟨fun hnode' => ?_, fun heq => ?_⟩, ⟨tree, hexpands⟩, ?_⟩
  · -- the other way to follow the aliases has the same expansion
    obtain ⟨tree', hexpands', -, hsame'⟩ := hnode'.exists_expansion
    rw [← hsame' [], ← hsame [], hexpands.unique hexpands']
  · rw [Option.some.inj heq]
    exact hnode
  · intro tree' hexpands'
    rw [← hexpands.unique hexpands']
    exact ⟨hfree, hsame []⟩

/-- The sequence `&a [*a]` in a mapping: the alias stands inside its own target, and the pass
makes no node. -/
example : (Tree.toNode (fun offset => ⟨1, some (offset + 1)⟩) []
    (.map [⟨.scalar (.text "a") false none 0, some (.seq [.aliasOf "a" 7] (some "a") 6)⟩]
      false none 0)).1 = none := rfl

/-- The flow mapping `{a: &x one, b: &y [*x], c: &x two, d: [*y, *x, *z]}`: the anchor `x` is
set twice, and `z` never. -/
def redefinedTree : Tree :=
  .map
    [⟨.scalar (.text "a") false none 1, some (.scalar (.text "one") false (some "x") 7)⟩,
      ⟨.scalar (.text "b") false none 12, some (.seq [.aliasOf "x" 19] (some "y") 18)⟩,
      ⟨.scalar (.text "c") false none 24, some (.scalar (.text "two") false (some "x") 30)⟩,
      ⟨.scalar (.text "d") false none 35,
        some (.seq [.aliasOf "y" 39, .aliasOf "x" 43, .aliasOf "z" 47] none 38)⟩]
    false none 0

/-- The same without aliases: the one inside the list `y` means the first `x` also where the
list is used. -/
def redefinedExpansion : Tree :=
  .map
    [⟨.scalar (.text "a") false none 1, some (.scalar (.text "one") false (some "x") 7)⟩,
      ⟨.scalar (.text "b") false none 12,
        some (.seq [.scalar (.text "one") false (some "x") 7] (some "y") 18)⟩,
      ⟨.scalar (.text "c") false none 24, some (.scalar (.text "two") false (some "x") 30)⟩,
      ⟨.scalar (.text "d") false none 35,
        some (.seq
          [.seq [.scalar (.text "one") false (some "x") 7] (some "y") 18,
            .scalar (.text "two") false (some "x") 30, .scalar .null false none 47] none 38)⟩]
    false none 0

/-- The expansion of that tree, alias by alias. -/
theorem expands_redefinedTree : Expands [] redefinedTree redefinedExpansion := by
  -- the list `y` is met twice, both times with the first `x` in front of it
  have hlist : ∀ before earlier,
      lastAnchored? "x" before = some (.scalar (.text "one") false (some "x") 7, earlier) →
        Expands before (.seq [.aliasOf "x" 19] (some "y") 18)
          (.seq [.scalar (.text "one") false (some "x") 7] (some "y") 18) := by
    intro before earlier htarget
    have hinside : lastAnchored? "x" (.seq [.aliasOf "x" 19] (some "y") 18 :: before)
        = some (.scalar (.text "one") false (some "x") 7, earlier) := htarget
    exact .seq (.cons (.followed hinside .scalar) .nil)
  refine .map (.cons .scalar (.cons (hlist _ _ rfl) (.cons .scalar (.cons (.seq ?_) .nil))))
  exact .cons (.followed rfl (hlist _ _ rfl))
    (.cons (.followed rfl .scalar) (.cons (.dangling rfl) .nil))

theorem toNode_expansion_redefinedTree :
    pointsBack [] redefinedTree.nodes = true ∧ redefinedExpansion.AliasFree
      ∧ (redefinedExpansion.toNode (fun offset => ⟨1, some (offset + 1)⟩) []).1
        = (redefinedTree.toNode (fun offset => ⟨1, some (offset + 1)⟩) []).1 := by
  have hback : pointsBack [] redefinedTree.nodes = true := by decide
  obtain ⟨-, -, -, hexpansion⟩ := toNode_expansion hback fun offset => ⟨1, some (offset + 1)⟩
  exact ⟨hback, hexpansion _ expands_redefinedTree⟩

end MetadataBlock.Yaml
