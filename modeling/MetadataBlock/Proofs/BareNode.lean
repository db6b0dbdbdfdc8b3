import Mathlib.Data.List.Basic
import MetadataBlock.Document.Plain
import MetadataBlock.Proofs.Numeral
import MetadataBlock.Proofs.SectionOrder
import MetadataBlock.Table.Cell

/-!
# Nodes without positions

Two nodes are equal when they differ in positions and in the sign of zero only. The bare
form of a node has no positions, and zero without its sign; equal nodes have the same bare
form, and what is looked up in the bare form of a mapping is the bare form of what is looked
up in the mapping.

- `Node.bare`, `Mapping.bare`: the bare forms;
- `Node.bare_eq_of_same`, `Mapping.bare_eq_of_same`: equal nodes;
- `Mapping.entry?_bare`, `Mapping.scalarAt?_bare`, `Mapping.text?_bare`, `Node.records_bare`,
  `Mapping.sections_bare`: look-up.
-/

namespace MetadataBlock

/-! ## Scalars -/

/-- A number is written without the sign of zero anyway. -/
@[simp]
theorem Number.text_unsigned (n : Number) : n.unsigned.text = n.text := by
  cases n with
  | negZero =>
    show Text.ofNat 0 = Text.ofString "0"
    rw [Text.ofNat_of_lt (by omega)]
    decide
  | nan => rfl
  | infinity negative => rfl
  | whole n => rfl
  | dyadic odd shift => rfl

namespace Scalar

/-- The scalar, with zero unsigned. -/
def bare : Scalar → Scalar
  | .number n => .number n.unsigned
  | v => v

/-- Equal scalars have the same bare form: numbers are compared without the sign of zero, and
everything else as it is. -/
theorem bare_eq_of_same {a b : Scalar} (h : a.same b = true) : a.bare = b.bare := by
  cases a with
  | number x =>
    cases b with
    | number y =>
      have hunsigned : (x.unsigned == y.unsigned) = true := (Bool.and_eq_true_iff.mp h).2
      rw [bare, bare, beq_iff_eq.mp hunsigned]
    | _ => nomatch h
  | null => cases b <;> first | rfl | nomatch h
  | bool x =>
    cases b with
    | bool y => rw [beq_iff_eq.mp h]
    | _ => nomatch h
  | text s =>
    cases b with
    | text t => rw [beq_iff_eq.mp h]
    | _ => nomatch h

/-- The bare form of a scalar has the same text, since zero is written without its sign. -/
@[simp]
theorem text?_bare (v : Scalar) : v.bare.text? = v.text? := by
  cases v with
  | number n =>
    show some n.unsigned.text = some n.text
    rw [Number.text_unsigned]
  | _ => rfl

@[simp]
theorem render_bare (v : Scalar) : Cell.render v.bare = Cell.render v := by
  cases v with
  | number n => exact Number.text_unsigned n
  | _ => rfl

theorem bare_eq_bool_iff {v : Scalar} {b : Bool} : v.bare = .bool b ↔ v = .bool b := by
  cases v with
  | number n => exact iff_of_false nofun nofun
  | _ => exact Iff.rfl

end Scalar

/-! ## Nodes -/

namespace Node

mutual

/-- The node without positions, and with zero unsigned. -/
def bare : Node → Node
  | .scalar value _ => .scalar value.bare none
  | .list items _ => .list (bareItems items) none
  | .mapping entries _ => .mapping (bareEntries entries) none

def bareItems : List Node → List Node
  | [] => []
  | item :: rest => bare item :: bareItems rest

def bareEntries : List Entry → List Entry
  | [] => []
  | ⟨key, value, _⟩ :: rest => ⟨key, bare value, none⟩ :: bareEntries rest

end

mutual

/-- Equal nodes have the same bare form. Nodes are compared kind by kind, items and entries one
by one and in order, so the induction is on the first node. -/
theorem bare_eq_of_same : ∀ {a b : Node}, a.same b = true → a.bare = b.bare
  | .scalar v _, .scalar w _, h => by
    rw [bare, bare, Scalar.bare_eq_of_same h]
  | .list as _, .list bs _, h => by
    rw [bare, bare, bareItems_eq_of_same h]
  | .mapping as _, .mapping bs _, h => by
    rw [bare, bare, bareEntries_eq_of_same h]
  | .scalar .., .list .., h | .scalar .., .mapping .., h | .list .., .scalar .., h
  | .list .., .mapping .., h | .mapping .., .scalar .., h | .mapping .., .list .., h => nomatch h

theorem bareItems_eq_of_same : ∀ {as bs : List Node}, sameItems as bs = true →
    bareItems as = bareItems bs
  | [], [], _ => rfl
  | a :: as, b :: bs, h => by
    obtain ⟨hfirst, hrest⟩ := Bool.and_eq_true_iff.mp h
    rw [bareItems, bareItems, bare_eq_of_same hfirst, bareItems_eq_of_same hrest]
  | [], _ :: _, h | _ :: _, [], h => nomatch h

theorem bareEntries_eq_of_same : ∀ {as bs : List Entry}, sameEntries as bs = true →
    bareEntries as = bareEntries bs
  | [], [], _ => rfl
  | ⟨key, value, _⟩ :: as, ⟨key', value', _⟩ :: bs, h => by
    obtain ⟨hfirst, hrest⟩ := Bool.and_eq_true_iff.mp h
    obtain ⟨hkey, hvalue⟩ := Bool.and_eq_true_iff.mp hfirst
    rw [bareEntries, bareEntries, beq_iff_eq.mp hkey, bare_eq_of_same hvalue,
      bareEntries_eq_of_same hrest]
  | [], ⟨_, _, _⟩ :: _, h | ⟨_, _, _⟩ :: _, [], h => nomatch h

end

@[simp]
theorem isScalar_bare (n : Node) : n.bare.isScalar = n.isScalar := by
  cases n <;> rfl

@[simp]
theorem isMapping_bare (n : Node) : n.bare.isMapping = n.isMapping := by
  cases n <;> rfl

theorem bareItems_eq_map (items : List Node) : bareItems items = items.map bare := by
  induction items with
  | nil => rfl
  | cons item items ih => rw [bareItems, ih, List.map_cons]

end Node

/-- The entry without positions. -/
def Entry.bare (e : Entry) : Entry :=
  ⟨e.key, e.value.bare, none⟩

theorem Node.bareEntries_eq_map (entries : List Entry) :
    bareEntries entries = entries.map Entry.bare := by
  induction entries with
  | nil => rfl
  | cons e entries ih =>
    obtain ⟨key, value, position⟩ := e
    rw [bareEntries, ih, List.map_cons]
    rfl

/-! ## Mappings -/

/-- The section without positions. -/
def Section.bare (s : Section) : Section :=
  ⟨s.keyword, s.block.bare⟩

namespace Mapping

/-- The mapping without positions. -/
def bare (m : Mapping) : Mapping :=
  ⟨m.entries.map Entry.bare, none⟩

theorem toNode_bare (m : Mapping) : m.bare.toNode = m.toNode.bare := by
  rw [toNode, toNode, Node.bare, Node.bareEntries_eq_map]
  rfl

/-- Equal mappings have the same bare form. -/
theorem bare_eq_of_same {a b : Mapping} (h : a.toNode.same b.toNode = true) : a.bare = b.bare := by
  have hnode := Node.bare_eq_of_same h
  rw [← toNode_bare, ← toNode_bare] at hnode
  have hentries : a.bare.entries = b.bare.entries := (Node.mapping.inj hnode).1
  rw [bare, bare] at hentries ⊢
  exact congrArg (Mapping.mk · none) hentries

variable (m : Mapping) (key : Text)

@[simp]
theorem keys_bare : m.bare.keys = m.keys := by
  rw [keys, keys, bare, List.map_map]
  rfl

/-- The first entry under a key is the same one, as the keys have not changed. -/
theorem entry?_bare : m.bare.entry? key = (m.entry? key).map Node.bare := by
  rw [Mapping.entry?, Mapping.entry?, bare, List.find?_map, Option.map_map, Option.map_map]
  rfl

/-- A scalar is found where it was, without its position. -/
theorem scalarAt?_bare :
    m.bare.scalarAt? key = (m.scalarAt? key).map fun found => (found.1.bare, none) := by
  rw [scalarAt?, scalarAt?, entry?_bare]
  cases m.entry? key with
  | none => rfl
  | some n => cases n <;> rfl

theorem scalar?_bare : m.bare.scalar? key = (m.scalar? key).map Scalar.bare := by
  rw [scalar?, scalar?, scalarAt?_bare, Option.map_map, Option.map_map]
  rfl

@[simp]
theorem text?_bare : m.bare.text? key = m.text? key := by
  rw [text?, text?, scalar?_bare, Option.bind_map]
  congr 1
  funext v
  exact Scalar.text?_bare v

end Mapping

namespace Node

theorem mapping?_bare (n : Node) : n.bare.mapping? = n.mapping?.map Mapping.bare := by
  cases n with
  | scalar value position => rfl
  | list items position => rfl
  | mapping entries position =>
    rw [bare, bareEntries_eq_map]
    rfl

/-- The records of a bare node are the bare forms of its records, since an item is a mapping
with its positions and without. -/
theorem records_bare (n : Node) : n.bare.records = n.records.map Mapping.bare := by
  cases n with
  | scalar value position => rfl
  | mapping entries position => rfl
  | list items position =>
    rw [bare, bareItems_eq_map, records, records, List.filterMap_map, List.map_filterMap]
    exact List.filterMap_congr fun item _ => mapping?_bare item

end Node

/-- In canonical order the sections of a bare document are the bare forms of its sections. The
order looks at keywords only, so sorting and leaving out positions can change places. -/
theorem Mapping.sections_bare (document : Document) :
    document.bare.sections = document.sections.map Section.bare := by
  have hsort := List.map_mergeSort (f := Section.bare) (l := document.sourceSections)
    (r := Section.before) (s := Section.before) fun _ _ _ _ => rfl
  rw [sourceSections, List.map_map] at hsort
  show (document.bare.sourceSections).mergeSort Section.before = _
  rw [sourceSections, bare, List.map_map]
  exact hsort.symm

end MetadataBlock
