import Mathlib.Data.List.Pairwise
import MetadataBlock.Names.Typo
import MetadataBlock.Proofs.EditTable
import MetadataBlock.Proofs.PrefixPartition

/-!
# How far a suspected name is from the intended one

A name is suspected when the letters that stand in the place of another group's key are a
few edits away from it. They are at least one edit away, since names with a common beginning
that is long enough are in one group. Only a lone name that is too short to be the beginning
of a group can itself be the beginning of a suspected name.

- `exists_groups_of_mem`: the two groups behind a suspicion;
- `short_of_prefix_key`: when a lone name begins with the key of another group;
- `suspicion_distance`: the distance of a suspected name;
- `suspicion_without_edit`: a suspected name that begins with the intended one.
-/

namespace MetadataBlock.Typo

open PrefixGroups EditDistance

variable {α : Type} [DecidableEq α]

/-- A suspicion compares a group of one name with another group. -/
theorem exists_groups_of_mem {groups : PrefixGroups α} {threshold : Int} {s : Suspicion α}
    (h : s ∈ loneNames groups threshold) :
    (s.suspect.stem, s.suspect.members) ∈ groups ∧ s.suspect.members.length = 1
      ∧ (s.intended.stem, s.intended.members) ∈ groups
      ∧ isNear threshold s.suspect.stem s.intended.stem = true := by
  obtain ⟨⟨stem, members⟩, hgroup, hs⟩ := List.mem_flatMap.mp h
  simp only at hs
  split at hs
  · next hone =>
    obtain ⟨⟨other, others⟩, hother, hsome⟩ := List.mem_filterMap.mp hs
    simp only [Option.ite_none_right_eq_some, Option.some.injEq] at hsome
    obtain ⟨hnear, rfl⟩ := hsome
    exact ⟨hgroup, hone, hother, hnear⟩
  · cases hs

/-- A name is near another group's key if the letters in its place are a few edits away. -/
theorem isNear_iff {threshold : Int} {stem intended : List α} :
    isNear threshold stem intended = true ↔ stem ≠ intended
      ∧ intended.length ≤ stem.length
      ∧ (distance (stem.take intended.length) intended : Int) ≤ threshold := by
  simp [isNear, and_assoc]

section

variable {minLength : Nat} {names : List (List α)} {group other : List α × List (List α)}

/-- Of two groups one was there first. -/
theorem apart_or_apart (hgroup : group ∈ greedy minLength names)
    (hother : other ∈ greedy minLength names) (hne : group ≠ other) :
    Apart minLength group other ∨ Apart minLength other group := by
  have hpairwise := greedy_pairwise minLength names
  refine List.Pairwise.forall_of_forall_of_flip (R := fun a b =>
    a ≠ b → Apart minLength a b ∨ Apart minLength b a) ?_ ?_ ?_ hgroup hother hne
  · exact fun a _ hne => absurd rfl hne
  · exact hpairwise.imp fun h _ => .inl h
  · exact hpairwise.imp fun h _ => .inr h

/-- A lone name begins with the key of another group only if that is a lone name, too, and too
short to be shared. Whichever group was there first would otherwise have claimed the name of
the other. -/
theorem short_of_prefix_key (hgroup : group ∈ greedy minLength names)
    (hother : other ∈ greedy minLength names) (hlone : group.2.length = 1)
    (hne : group.1 ≠ other.1) (hbegins : other.1 <+: group.1) :
    other.1.length < minLength ∧ other.2 = [other.1] := by
  obtain ⟨lone, hmembers⟩ := List.length_eq_one_iff.mp hlone
  have hkey : group.1 = lone := (greedy_formed minLength names group hgroup).lone lone hmembers
  have hformed := greedy_formed minLength names other hother
  have hshort : other.1.length < minLength := by
    rcases apart_or_apart hgroup hother (fun heq => hne (congrArg _ heq)) with hapart | hapart
    · -- the lone name came first and shares too little with the members of the other group
      obtain ⟨name, hname⟩ := List.exists_mem_of_ne_nil _ hformed.nonempty
      have hname' : other.1 <+: name := (hformed.longest other.1).mp List.prefix_rfl name hname
      have hle := length_le_commonPrefix (hkey ▸ hbegins) hname'
      exact Nat.lt_of_le_of_lt hle (hapart.unshared lone hmembers name hname)
    · -- the other group came first and left the lone name
      have hmember : group.1 ∈ group.2 := by rw [hmembers, hkey]; exact List.mem_singleton_self _
      exact (hapart.unclaimed group.1 hmember hbegins).1
  refine ⟨hshort, ?_⟩
  obtain ⟨name, hname⟩ := List.exists_mem_of_ne_nil _ hformed.nonempty
  have hpos := List.length_pos_of_mem hname
  have hone : other.2.length = 1 := by
    by_cases hlong : 2 ≤ other.2.length
    · exact absurd hshort (Nat.not_lt.mpr (hformed.long hlong))
    · omega
  obtain ⟨single, hsingle⟩ := List.length_eq_one_iff.mp hone
  rw [hsingle, hformed.lone single hsingle]

end

/-- No edit is needed if and only if the name begins with the other one. -/
theorem distance_take_eq_zero_iff {stem intended : List α} :
    distance (stem.take intended.length) intended = 0 ↔ intended <+: stem := by
  rw [distance_eq_zero_iff, List.prefix_iff_eq_take, eq_comm]

/-- The suspected name begins with the intended one, which stands alone and is too short to be
the beginning of a group. -/
def Suspicion.OfShortName (minLength : Nat) (s : Suspicion α) : Prop :=
  s.intended.stem <+: s.suspect.stem ∧ s.intended.stem.length < minLength
    ∧ s.intended.members = [s.intended.stem]

/-- **A suspected name is at most the threshold away from the intended beginning, and at least
one edit**, unless the intended one is a short name that stands alone. So no suspected name
begins with an intended beginning that is long enough, and a threshold of zero only reports
such short names. -/
theorem suspicion_distance {names : List (List α)} {minLength : Nat} {threshold : Int}
    {s : Suspicion α} (h : s ∈ suspicions names minLength threshold) :
    (distance (s.suspect.stem.take s.intended.stem.length) s.intended.stem : Int) ≤ threshold
      ∧ (1 ≤ distance (s.suspect.stem.take s.intended.stem.length) s.intended.stem
        ∨ s.OfShortName minLength)
      ∧ (s.intended.stem <+: s.suspect.stem → s.OfShortName minLength)
      ∧ (threshold = 0 → s.OfShortName minLength) := by
  have hsplit : split minLength names = greedy minLength names :=
    splitInto_eq minLength names [] (by simp)
  rw [suspicions, hsplit] at h
  obtain ⟨hsuspect, hlone, hintended, hnear⟩ := exists_groups_of_mem h
  obtain ⟨hne, -, hle⟩ := isNear_iff.mp hnear
  have hshort : s.intended.stem <+: s.suspect.stem → s.OfShortName minLength := fun hbegins =>
    ⟨hbegins, short_of_prefix_key hsuspect hintended hlone hne hbegins⟩
  refine ⟨hle, ?_, hshort, fun hzero => ?_⟩
  · rcases Nat.eq_zero_or_pos
      (distance (s.suspect.stem.take s.intended.stem.length) s.intended.stem) with hd | hd
    · exact .inr (hshort (distance_take_eq_zero_iff.mp hd))
    · exact .inl hd
  · refine hshort (distance_take_eq_zero_iff.mp ?_)
    omega

/-- A misspelt name, and a short name that begins another one. -/
def doubtfulNames : List Text :=
  ["authorName", "authorEmail", "auhtorPhone", "id", "identifier"]

/-- What the misspelt name of them gives rise to. -/
def misspelling : Suspicion UInt16 :=
  ⟨⟨"auhtorPhone", ["auhtorPhone"]⟩, ⟨"author", ["authorName", "authorEmail"]⟩⟩

theorem suspicion_distance_misspelling :
    misspelling ∈ suspicions doubtfulNames 3 1
      ∧ (distance (misspelling.suspect.stem.take misspelling.intended.stem.length)
          misspelling.intended.stem : Int) ≤ 1
      ∧ (1 ≤ distance (misspelling.suspect.stem.take misspelling.intended.stem.length)
          misspelling.intended.stem ∨ misspelling.OfShortName 3)
      ∧ (misspelling.intended.stem <+: misspelling.suspect.stem → misspelling.OfShortName 3)
      ∧ ((1 : Int) = 0 → misspelling.OfShortName 3) := by
  have hmem : misspelling ∈ suspicions doubtfulNames 3 1 := by decide +kernel
  exact ⟨hmem, suspicion_distance hmem⟩

/-- With no edit allowed, a name is suspected that begins with a shorter one. -/
theorem suspicion_without_edit :
    doubtfulNames.Nodup
      ∧ ∃ s ∈ suspicions doubtfulNames 3 0,
        distance (s.suspect.stem.take s.intended.stem.length) s.intended.stem = 0
          ∧ s.intended.stem <+: s.suspect.stem := by
  refine ⟨by decide, ⟨⟨"identifier", ["identifier"]⟩, ⟨"id", ["id"]⟩⟩, ?_⟩
  decide +kernel

end MetadataBlock.Typo
