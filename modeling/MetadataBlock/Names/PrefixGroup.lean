/-!
# Groups of names with a common beginning

Names that belong together usually begin alike. `PrefixGroups.split` takes the
first name that is left, binds it to the names that share its longest beginning
with any other name, and goes on with the rest. Names that only share less
remain for later groups, and names that share less than the least length with
all others stand alone.
-/

namespace MetadataBlock

/-- The longest common beginning of two lists. -/
def commonPrefix {α : Type} [DecidableEq α] : List α → List α → List α
  | x :: a, y :: b => if x = y then x :: commonPrefix a b else []
  | _, _ => []

/-- Groups in order: what the members of a group have in common, and the members. -/
abbrev PrefixGroups (α : Type) := List (List α × List (List α))

namespace PrefixGroups

variable {α : Type} [DecidableEq α]

/-- Store a group. A beginning that is already there keeps its place and takes the
new members. -/
def insert (groups : PrefixGroups α) (stem : List α) (members : List (List α)) : PrefixGroups α :=
  if groups.any (·.1 = stem) then
    groups.map fun g => if g.1 = stem then (stem, members) else g
  else groups ++ [(stem, members)]

/-- The group that is being collected: the beginning found so far, if any, and the
members in order. -/
structure Gathering (α : Type) where
  stem : Option (List α)
  members : List (List α)

/-- Look at one more name. A longer shared beginning replaces the one found so
far, and the members that lack it leave. -/
def Gathering.add (minLength : Nat) (reference : List α) (g : Gathering α) (name : List α) :
    Gathering α :=
  let shared := commonPrefix reference name
  match g.stem with
  | none =>
    if minLength ≤ shared.length then ⟨some shared, g.members ++ [name]⟩ else g
  | some stem =>
    if shared = stem then ⟨some stem, g.members ++ [name]⟩
    else if stem.isPrefixOf shared then
      ⟨some shared, (g.members ++ [name]).filter (shared.isPrefixOf ·)⟩
    else g

/-- The group of a name among the names after it. -/
def gather (minLength : Nat) (reference : List α) (names : List (List α)) : Gathering α :=
  names.foldl (Gathering.add minLength reference) ⟨none, [reference]⟩

/-- The names that are no members of a group. -/
def leaveOut (members names : List (List α)) : List (List α) :=
  names.filter fun name => !members.contains name

/-- Bind names to groups until none is left, and store the groups in turn. -/
def splitInto (minLength : Nat) (groups : PrefixGroups α) (names : List (List α)) :
    PrefixGroups α :=
  match names with
  | [] => groups
  | reference :: rest =>
    let g := gather minLength reference rest
    splitInto minLength (groups.insert (g.stem.getD reference) g.members)
      (leaveOut g.members rest)
termination_by names.length
decreasing_by exact Nat.lt_succ_of_le (List.length_filter_le _ _)

/-- The groups of names that share a beginning of at least `minLength` letters. -/
def split (minLength : Nat) (names : List (List α)) : PrefixGroups α :=
  splitInto minLength [] names

end PrefixGroups

end MetadataBlock
