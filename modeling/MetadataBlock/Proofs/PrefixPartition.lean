import MetadataBlock.Proofs.GreedyGroups
import MetadataBlock.Text.Basic

/-!
# Groups partition the names

Names that differ from one another are spread over the groups: every name is in exactly one
of them, no group replaces another, and the order of the names is kept. The key of a group
is the longest beginning that its members have in common.

- `greedy_sublist`, `greedy_firsts`: the order of the names is kept;
- `greedy_formed`: what every group is;
- `Apart`, `greedy_pairwise`: what every group leaves to the later ones;
- `greedy_keys_nodup`, `greedy_perm`: no key and no name stands twice, and none is lost;
- `Partitions`, `split_partitions`: all of it together.
-/

namespace MetadataBlock.PrefixGroups

variable {α : Type} [DecidableEq α]

/-- The names that are left stay in their order. -/
theorem leaveOut_sublist (members names : List (List α)) :
    (leaveOut members names).Sublist names :=
  List.filter_sublist

section

variable {minLength : Nat} {reference : List α} {others : List (List α)} {g : Gathering α}

theorem Gathered.head?_members (h : Gathered minLength reference others g) :
    g.members.head? = some reference := by
  cases h with
  | alone => rfl
  | bound => rfl

/-- A name that stands alone shares too little with all that are left. -/
theorem Gathered.unshared (h : Gathered minLength reference others g) {lone : List α}
    (hlone : g.members = [lone]) {name : List α} (hname : name ∈ others) :
    (commonPrefix lone name).length < minLength := by
  cases h with
  | alone short =>
    obtain rfl : reference = lone := (List.cons.inj hlone).1
    exact short name hname
  | bound h hmembers =>
    obtain ⟨closest, hclosest, -⟩ := h.exists_mem_filter
    rw [← hmembers, (List.cons.inj hlone).2] at hclosest
    cases hclosest

/-- The members and the names that are left are the names there were. Names that differ from
one another are members or are left, and none is both. -/
theorem Gathered.perm (h : Gathered minLength reference others g)
    (hnodup : (reference :: others).Nodup) :
    (g.members ++ leaveOut g.members others).Perm (reference :: others) := by
  have hsublist := h.members_sublist
  have hreference : reference ∈ g.members := List.mem_of_mem_head? h.head?_members
  have hapart : (g.members ++ leaveOut g.members others).Nodup := by
    rw [List.nodup_append]
    refine ⟨hnodup.sublist hsublist,
      (List.nodup_cons.mp hnodup).2.sublist (leaveOut_sublist _ _), ?_⟩
    rintro name hmember _ hleft rfl
    exact (mem_leaveOut.mp hleft).2 hmember
  -- both lists are free of repetitions, so it is enough that they have the same members
  rw [List.perm_ext_iff_of_nodup hapart hnodup]
  intro name
  rw [List.mem_append, mem_leaveOut]
  constructor
  · rintro (hmember | ⟨hother, -⟩)
    · exact hsublist.subset hmember
    · exact List.mem_cons_of_mem _ hother
  · intro hname
    by_cases hmember : name ∈ g.members
    · exact .inl hmember
    · rcases List.mem_cons.mp hname with rfl | hother
      · exact absurd hreference hmember
      · exact .inr ⟨hother, hmember⟩

end

/-! ## Order -/

/-- The members of a group are names in the order of the names, since every pass goes along
what is left of them. -/
theorem greedy_sublist (minLength : Nat) (names : List (List α)) :
    ∀ group ∈ greedy minLength names, group.2.Sublist names := by
  refine greedy_induction minLength (motive := fun names emitted =>
    ∀ group ∈ emitted, group.2.Sublist names) ?_ ?_ names
  · exact fun group hgroup => by cases hgroup
  · intro reference others g _ h ih group hgroup
    rcases List.mem_cons.mp hgroup with rfl | hgroup
    · exact h.members_sublist
    · exact ((ih group hgroup).trans (leaveOut_sublist _ _)).cons reference

/-- The groups are in the order of their first members. The first member of a group is the
first name that is left. -/
theorem greedy_firsts (minLength : Nat) (names : List (List α)) :
    ((greedy minLength names).map (·.2.head?)).Sublist (names.map some) := by
  refine greedy_induction minLength (motive := fun names emitted =>
    (emitted.map (·.2.head?)).Sublist (names.map some)) ?_ ?_ names
  · exact .slnil
  · intro reference others g _ h ih
    rw [List.map_cons, List.map_cons, h.head?_members]
    exact (ih.trans ((leaveOut_sublist _ _).map some)).cons_cons (some reference)

/-! ## Groups among groups -/

/-- Every group is formed by a pass, and stays as it was formed. -/
theorem greedy_formed (minLength : Nat) (names : List (List α)) :
    ∀ group ∈ greedy minLength names, Formed minLength group := by
  refine greedy_induction minLength (motive := fun _ emitted =>
    ∀ group ∈ emitted, Formed minLength group) ?_ ?_ names
  · exact fun group hgroup => by cases hgroup
  · exact fun reference others g _ h ih => List.forall_mem_cons.mpr ⟨h.formed, ih⟩

/-- What a group has to do with the names of a later one: they do not begin with its key,
unless that is too short to be shared, and if its own name stands alone, they share too little
with it. -/
structure Apart (minLength : Nat) (group later : List α × List (List α)) : Prop where
  unclaimed : ∀ name ∈ later.2, Unclaimed minLength group.1 name
  unshared : ∀ lone, group.2 = [lone] → ∀ name ∈ later.2,
    (commonPrefix lone name).length < minLength

/-- Each group stands apart from all that follow: its pass has claimed every name that begins
with its key, so the later passes do not see them. -/
theorem greedy_pairwise (minLength : Nat) (names : List (List α)) :
    (greedy minLength names).Pairwise (Apart minLength) := by
  refine greedy_induction minLength (motive := fun _ emitted =>
    emitted.Pairwise (Apart minLength)) .nil ?_ names
  intro reference others g _ h ih
  refine .cons (fun later hlater => ?_) ih
  have hleft : ∀ name ∈ later.2, name ∈ leaveOut g.members others := fun name hname =>
    (greedy_sublist minLength _ later hlater).subset hname
  exact {
    unclaimed := fun name hname => h.unclaimed (hleft name hname)
    unshared := fun lone hlone name hname =>
      h.unshared hlone (mem_leaveOut.mp (hleft name hname)).1 }

/-- No two groups have the same key. A later group with the same key would have members that
the earlier one had claimed. -/
theorem greedy_keys_nodup (minLength : Nat) (names : List (List α)) :
    ((greedy minLength names).map (·.1)).Nodup := by
  rw [List.Nodup, List.pairwise_map]
  refine (greedy_pairwise minLength names).imp_of_mem fun _ hlater hapart => ?_
  exact (greedy_formed minLength names _ hlater).key_ne hapart.unclaimed

/-- No name is lost and none is kept twice. Each step splits the names that are left into
members and others. -/
theorem greedy_perm (minLength : Nat) {names : List (List α)} (hnodup : names.Nodup) :
    ((greedy minLength names).flatMap (·.2)).Perm names := by
  refine greedy_induction minLength (motive := fun names emitted =>
    names.Nodup → (emitted.flatMap (·.2)).Perm names) ?_ ?_ names hnodup
  · exact fun _ => .refl []
  · intro reference others g _ h ih hnodup
    have hleft : (leaveOut g.members others).Nodup :=
      (List.nodup_cons.mp hnodup).2.sublist (leaveOut_sublist _ _)
    rw [List.flatMap_cons]
    exact ((ih hleft).append_left g.members).trans (h.perm hnodup)

/-! ## The partition -/

/-- Groups that partition some names. -/
structure Partitions (minLength : Nat) (names : List (List α)) (groups : PrefixGroups α) :
    Prop where
  /-- Every name is a member of exactly one group. -/
  once : (groups.flatMap (·.2)).Perm names
  /-- No two groups have the same key. -/
  keys : (groups.map (·.1)).Nodup
  /-- The members of a group are in the order of the names. -/
  members : ∀ group ∈ groups, group.2.Sublist names
  /-- Every group has a first member, and these are in the order of the names. -/
  firsts : (groups.map (·.2.head?)).Sublist (names.map some)
  /-- A name that stands alone is the key. -/
  lone : ∀ group ∈ groups, ∀ name, group.2 = [name] → group.1 = name
  /-- The key of several names is their longest common beginning, and it is long enough. -/
  shared : ∀ group ∈ groups, 2 ≤ group.2.length →
    minLength ≤ group.1.length ∧ ∀ p, p <+: group.1 ↔ ∀ name ∈ group.2, p <+: name

/-- **The groups partition the names**, if no two names are equal. The procedure gives the same
groups as the pass, so everything is proved of the procedure. -/
theorem split_partitions (minLength : Nat) {names : List (List α)} (hnodup : names.Nodup) :
    Partitions minLength names (split minLength names) := by
  have hsplit : split minLength names = greedy minLength names :=
    splitInto_eq minLength names [] (by simp)
  rw [hsplit]
  exact {
    once := greedy_perm minLength hnodup
    keys := greedy_keys_nodup minLength names
    members := greedy_sublist minLength names
    firsts := greedy_firsts minLength names
    lone := fun group hgroup => (greedy_formed minLength names group hgroup).lone
    shared := fun group hgroup hlong =>
      ⟨(greedy_formed minLength names group hgroup).long hlong,
        (greedy_formed minLength names group hgroup).longest⟩ }

/-- Names with nested beginnings: a longer one narrows the group of the first name, so that
the second name comes back to be bound to a later one. -/
def nestedNames : List Text :=
  ["FooBarLong", "FooBarShort", "FooBarLonger", "Foo", "x"]

theorem split_partitions_nestedNames :
    nestedNames.Nodup ∧ Partitions 3 nestedNames (split 3 nestedNames) := by
  have hnodup : nestedNames.Nodup := by decide
  exact ⟨hnodup, split_partitions 3 hnodup⟩

example : split 3 nestedNames = ([("FooBarLong", ["FooBarLong", "FooBarLonger"]),
    ("Foo", ["FooBarShort", "Foo"]), ("x", ["x"])] : List (Text × List Text)) := by
  decide +kernel

end MetadataBlock.PrefixGroups
