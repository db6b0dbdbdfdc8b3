import MetadataBlock.Names.EditDistance
import MetadataBlock.Names.PrefixGroup

/-!
# Likely typos

A name that stands alone is suspected when its beginning is a few edits away from
the beginning that a group shares. The suspicion may be wrong, so what is built on
it is a warning.
-/

namespace MetadataBlock.Typo

variable {α : Type} [DecidableEq α]

/-- A group together with the beginning its members share. -/
structure Family (α : Type) where
  stem : List α
  members : List (List α)
  deriving DecidableEq

/-- A lone name that looks like a misspelt member of another group. -/
structure Suspicion (α : Type) where
  suspect : Family α
  intended : Family α
  deriving DecidableEq

/-- Could `stem`, cut to the length of `intended`, be a misspelling of it? A stem
cannot be a misspelling of a longer one. -/
def isNear (threshold : Int) (stem intended : List α) : Bool :=
  stem != intended && intended.length ≤ stem.length
    && EditDistance.distance (stem.take intended.length) intended ≤ threshold

/-- Compare every group of one name with every other group. -/
def loneNames (groups : PrefixGroups α) (threshold : Int) : List (Suspicion α) :=
  groups.flatMap fun (stem, members) =>
    if members.length = 1 then
      groups.filterMap fun (other, others) =>
        if isNear threshold stem other then some ⟨⟨stem, members⟩, ⟨other, others⟩⟩ else none
    else []

/-- The suspicions that a list of names gives rise to. -/
def suspicions (names : List (List α)) (minLength : Nat) (threshold : Int) : List (Suspicion α) :=
  loneNames (PrefixGroups.split minLength names) threshold

end MetadataBlock.Typo
