import Mathlib.Data.List.Induction
import MetadataBlock.Names.PrefixGroup

/-!
# Groups by the longest shared beginning

The groups are found in one pass over the names that are left, with a beginning that grows
while the pass goes on. They are the groups of a procedure that first looks for the most
letters that the first name shares with any other, and then takes the names that share them.

- `prefix_commonPrefix_iff`: what two lists have in common;
- `Gathered`, `gathered_gather`: what one pass has found after some of the names, as an
  invariant with one step lemma;
- `closestGroup`, `greedy`: the procedure;
- `splitInto_eq`, `split_eq_greedy`: both give the same groups, none of which replaces
  another.
-/

namespace MetadataBlock

section

variable {α : Type} [DecidableEq α]

/-- A list is a beginning of what two lists have in common if it is one of both. So what they
have in common is the longest of their shared beginnings. -/
theorem prefix_commonPrefix_iff {p a b : List α} :
    p <+: commonPrefix a b ↔ p <+: a ∧ p <+: b := by
  fun_induction commonPrefix a b generalizing p with
  | case1 x a b ih =>
    cases p with
    | nil => simp
    | cons z p =>
      rw [List.cons_prefix_cons, List.cons_prefix_cons, List.cons_prefix_cons, ih]
      exact and_and_left
  | case2 x a y b hne =>
    cases p with
    | nil => simp
    | cons z p =>
      rw [List.prefix_nil, List.cons_prefix_cons, List.cons_prefix_cons]
      refine iff_of_false (List.cons_ne_nil z p) ?_
      rintro ⟨⟨rfl, -⟩, rfl, -⟩
      exact hne rfl
  | case3 a b hnil =>
    rw [List.prefix_nil]
    refine ⟨fun h => by simp [h], fun ⟨ha, hb⟩ => ?_⟩
    cases p with
    | nil => rfl
    | cons z p =>
      obtain ⟨a', rfl, -⟩ := List.cons_prefix_iff.mp ha
      obtain ⟨b', rfl, -⟩ := List.cons_prefix_iff.mp hb
      exact absurd rfl (hnil z a' z b' rfl)

theorem commonPrefix_prefix_left (a b : List α) : commonPrefix a b <+: a :=
  (prefix_commonPrefix_iff.mp List.prefix_rfl).1

theorem commonPrefix_prefix_right (a b : List α) : commonPrefix a b <+: b :=
  (prefix_commonPrefix_iff.mp List.prefix_rfl).2

/-- What is a beginning of both lists is no longer than what they have in common. -/
theorem length_le_commonPrefix {p a b : List α} (ha : p <+: a) (hb : p <+: b) :
    p.length ≤ (commonPrefix a b).length :=
  (prefix_commonPrefix_iff.mpr ⟨ha, hb⟩).length_le

end

namespace PrefixGroups

variable {α : Type} [DecidableEq α]

/-! ## One pass -/

/-- The longest beginning that a name shares with any of several others is long enough. -/
structure Longest (minLength : Nat) (reference : List α) (names : List (List α))
    (stem : List α) : Prop where
  shared : ∃ name ∈ names, commonPrefix reference name = stem
  long : minLength ≤ stem.length
  longest : ∀ name ∈ names, (commonPrefix reference name).length ≤ stem.length

/-- What a pass has found for a name among the names it has seen: nothing that is long
enough, or the longest beginning shared with any of them and the names that have it. -/
inductive Gathered (minLength : Nat) (reference : List α) (seen : List (List α)) :
    Gathering α → Prop
  | alone (short : ∀ name ∈ seen, (commonPrefix reference name).length < minLength) :
      Gathered minLength reference seen ⟨none, [reference]⟩
  | bound {stem : List α} (h : Longest minLength reference seen stem) {members : List (List α)}
      (hmembers : members = seen.filter (stem.isPrefixOf ·)) :
      Gathered minLength reference seen ⟨some stem, reference :: members⟩

section

variable {minLength : Nat} {reference : List α} {seen : List (List α)} {stem : List α}

theorem Longest.prefix_reference (h : Longest minLength reference seen stem) :
    stem <+: reference := by
  obtain ⟨name, -, rfl⟩ := h.shared
  exact commonPrefix_prefix_left reference name

/-- A beginning that is longer than all that is shared belongs to no name. This is why a pass
can forget the names it has seen as soon as one shares more. -/
theorem filter_isPrefixOf_eq_nil (hstem : stem <+: reference)
    (h : ∀ name ∈ seen, (commonPrefix reference name).length < stem.length) :
    seen.filter (stem.isPrefixOf ·) = [] := by
  rw [List.filter_eq_nil_iff]
  intro name hname hbegins
  have hle := length_le_commonPrefix hstem (List.isPrefixOf_iff_prefix.mp hbegins)
  exact Nat.not_le.mpr (h name hname) hle

/-- A name that shares more than all names before it alone has what it shares. -/
theorem filter_concat_of_lt {name : List α}
    (h : ∀ other ∈ seen, (commonPrefix reference other).length
      < (commonPrefix reference name).length) :
    (seen ++ [name]).filter ((commonPrefix reference name).isPrefixOf ·) = [name] := by
  have hself : (commonPrefix reference name).isPrefixOf name :=
    List.isPrefixOf_iff_prefix.mpr (commonPrefix_prefix_right reference name)
  rw [List.filter_append, filter_isPrefixOf_eq_nil (commonPrefix_prefix_left reference name) h,
    List.filter_cons_of_pos hself, List.filter_nil, List.nil_append]

/-- A name that shares more than all names before it sets the beginning. -/
theorem longest_concat {name : List α} (hlong : minLength ≤ (commonPrefix reference name).length)
    (h : ∀ other ∈ seen, (commonPrefix reference other).length
      < (commonPrefix reference name).length) :
    Longest minLength reference (seen ++ [name]) (commonPrefix reference name) where
  shared := ⟨name, by simp, rfl⟩
  long := hlong
  longest := List.forall_mem_append.mpr
    ⟨fun other hother => Nat.le_of_lt (h other hother), by simp⟩

/-- A name that shares no more leaves the beginning as it is. -/
theorem Longest.concat {name : List α} (h : Longest minLength reference seen stem)
    (hle : (commonPrefix reference name).length ≤ stem.length) :
    Longest minLength reference (seen ++ [name]) stem where
  shared := by
    obtain ⟨other, hother, heq⟩ := h.shared
    exact ⟨other, List.mem_append_left _ hother, heq⟩
  long := h.long
  longest := List.forall_mem_append.mpr ⟨h.longest, by simpa using hle⟩

/-- One more name keeps the invariant. It shares more than all names before it and replaces
what was found, or as much as they do and joins its group, or less and changes nothing. -/
theorem Gathered.add {g : Gathering α} (h : Gathered minLength reference seen g)
    (name : List α) :
    Gathered minLength reference (seen ++ [name]) (g.add minLength reference name) := by
  cases h with
  | alone short =>
    simp only [Gathering.add]
    split
    · next hlong =>
      have hlt : ∀ other ∈ seen, (commonPrefix reference other).length
          < (commonPrefix reference name).length :=
        fun other hother => Nat.lt_of_lt_of_le (short other hother) hlong
      exact .bound (longest_concat hlong hlt) (filter_concat_of_lt hlt).symm
    · next hshort =>
      exact .alone (List.forall_mem_append.mpr ⟨short, by simpa using hshort⟩)
  | @bound stem h members hmembers =>
    have hbegins : commonPrefix reference name <+: reference :=
      commonPrefix_prefix_left reference name
    simp only [Gathering.add]
    split
    · next heq =>
      -- the same beginning: the name joins
      refine .bound (h.concat (Nat.le_of_eq (congrArg _ heq))) ?_
      have hname : stem.isPrefixOf name :=
        List.isPrefixOf_iff_prefix.mpr (heq ▸ commonPrefix_prefix_right reference name)
      rw [hmembers, List.filter_append, List.filter_cons_of_pos hname, List.filter_nil]
      rfl
    · next hne =>
      split
      · next hlonger =>
        -- a longer beginning: no name before this one has it but the first
        have hlonger := List.isPrefixOf_iff_prefix.mp hlonger
        have hltstem : stem.length < (commonPrefix reference name).length :=
          Nat.lt_of_le_of_ne hlonger.length_le fun heq => hne (hlonger.eq_of_length heq).symm
        have hlt : ∀ other ∈ seen, (commonPrefix reference other).length
            < (commonPrefix reference name).length :=
          fun other hother => Nat.lt_of_le_of_lt (h.longest other hother) hltstem
        have hltmember : ∀ other ∈ members, (commonPrefix reference other).length
            < (commonPrefix reference name).length :=
          fun other hother => hlt other (List.mem_filter.mp (hmembers ▸ hother)).1
        have hlong : minLength ≤ (commonPrefix reference name).length :=
          Nat.le_trans h.long (Nat.le_of_lt hltstem)
        rw [List.cons_append, List.filter_cons_of_pos (List.isPrefixOf_iff_prefix.mpr hbegins),
          filter_concat_of_lt hltmember]
        exact .bound (longest_concat hlong hlt) (filter_concat_of_lt hlt).symm
      · next hshorter =>
        -- a shorter beginning: the name stays out
        have hshorter : ¬stem <+: commonPrefix reference name :=
          fun hbegins => hshorter (List.isPrefixOf_iff_prefix.mpr hbegins)
        have hle : (commonPrefix reference name).length ≤ stem.length :=
          ((List.prefix_or_prefix_of_prefix hbegins h.prefix_reference).resolve_right
            hshorter).length_le
        have hname : ¬stem.isPrefixOf name := fun hname => hshorter
          (prefix_commonPrefix_iff.mpr ⟨h.prefix_reference, List.isPrefixOf_iff_prefix.mp hname⟩)
        refine .bound (h.concat hle) ?_
        rw [hmembers, List.filter_append, List.filter_cons_of_neg hname, List.filter_nil,
          List.append_nil]

/-- The invariant after the whole pass. -/
theorem gathered_gather (minLength : Nat) (reference : List α) (names : List (List α)) :
    Gathered minLength reference names (gather minLength reference names) := by
  -- from the right, as the fold takes the last name last
  induction names using List.reverseRecOn with
  | nil => exact .alone (by simp)
  | append_singleton names name ih =>
    rw [gather, List.foldl_append]
    exact ih.add name

end

/-! ## The procedure -/

/-- The most letters that a name shares with any of the others; nothing if there are none. -/
def mostShared (reference : List α) (others : List (List α)) : Option Nat :=
  (others.map fun name => (commonPrefix reference name).length).max?

/-- The group of a name among the others: all names that begin with as many of its letters as
it shares with any other, if these are enough, and else the name alone. -/
def closestGroup (minLength : Nat) (reference : List α) (others : List (List α)) :
    List α × List (List α) :=
  match mostShared reference others with
  | some shared =>
    if minLength ≤ shared then
      (reference.take shared,
        (reference :: others).filter fun name => (reference.take shared).isPrefixOf name)
    else (reference, [reference])
  | none => (reference, [reference])

/-- Emit the group of the first name, leave out every name that is a member of it, and go on
with the others. -/
def greedy (minLength : Nat) (names : List (List α)) : PrefixGroups α :=
  match names with
  | [] => []
  | reference :: others =>
    let group := closestGroup minLength reference others
    group :: greedy minLength (leaveOut group.2 others)
termination_by names.length
decreasing_by exact Nat.lt_succ_of_le (List.length_filter_le _ _)

/-- A pass finds the group. The invariant says what has been found in the words of the
procedure: the most letters shared, and the names that begin with them. -/
theorem Gathered.closestGroup_eq {minLength : Nat} {reference : List α} {others : List (List α)}
    {g : Gathering α} (h : Gathered minLength reference others g) :
    closestGroup minLength reference others = (g.stem.getD reference, g.members) := by
  cases h with
  | alone short =>
    rw [closestGroup]
    split
    · next shared hshared =>
      obtain ⟨name, hname, rfl⟩ := List.mem_map.mp (List.max?_mem hshared)
      rw [if_neg (Nat.not_le.mpr (short name hname))]
      rfl
    · rfl
  | @bound stem h members hmembers =>
    obtain ⟨name, hname, rfl⟩ := h.shared
    have hshared : mostShared reference others = some (commonPrefix reference name).length := by
      rw [mostShared, List.max?_eq_some_iff]
      exact ⟨List.mem_map_of_mem hname, List.forall_mem_map.mpr h.longest⟩
    have htake : reference.take (commonPrefix reference name).length
        = commonPrefix reference name :=
      (List.prefix_iff_eq_take.mp h.prefix_reference).symm
    rw [closestGroup, hshared, hmembers]
    simp only [if_pos h.long, htake]
    rw [List.filter_cons_of_pos (List.isPrefixOf_iff_prefix.mpr h.prefix_reference)]
    rfl

/-- To prove something of the groups that the procedure emits, follow the passes. In each step
the invariant holds of what the pass has found. -/
theorem greedy_induction (minLength : Nat) {motive : List (List α) → PrefixGroups α → Prop}
    (nil : motive [] [])
    (cons : ∀ (reference : List α) (others : List (List α)) (g : Gathering α),
      g = gather minLength reference others → Gathered minLength reference others g →
        motive (leaveOut g.members others) (greedy minLength (leaveOut g.members others)) →
          motive (reference :: others) ((g.stem.getD reference, g.members)
            :: greedy minLength (leaveOut g.members others)))
    (names : List (List α)) : motive names (greedy minLength names) := by
  fun_induction greedy minLength names with
  | case1 => exact nil
  | case2 reference others group ih =>
    have hgather := gathered_gather minLength reference others
    have hgroup : group = ((gather minLength reference others).stem.getD reference,
        (gather minLength reference others).members) := hgather.closestGroup_eq
    rw [hgroup] at ih ⊢
    exact cons reference others _ rfl hgather ih

/-! ## One group -/

/-- What a group is: some names and the longest beginning that all of them have, which is long
enough if there are several. -/
structure Formed (minLength : Nat) (group : List α × List (List α)) : Prop where
  nonempty : group.2 ≠ []
  lone : ∀ name, group.2 = [name] → group.1 = name
  long : 2 ≤ group.2.length → minLength ≤ group.1.length
  longest : ∀ p, p <+: group.1 ↔ ∀ name ∈ group.2, p <+: name

/-- A group with this key may leave the name to later groups: the name does not begin with
the key, unless the key is too short to be shared, and it is not the key. -/
def Unclaimed (minLength : Nat) (key name : List α) : Prop :=
  key <+: name → key.length < minLength ∧ name ≠ key

omit [DecidableEq α] in
/-- Names that were left by a group of some key are not stored under that key. -/
theorem Formed.key_ne {minLength : Nat} {group : List α × List (List α)} {key : List α}
    (h : Formed minLength group) (hkey : ∀ name ∈ group.2, Unclaimed minLength key name) :
    key ≠ group.1 := by
  intro heq
  have hbegins : ∀ name ∈ group.2, key <+: name :=
    (h.longest key).mp (heq ▸ List.prefix_rfl)
  obtain ⟨name, hname⟩ := List.exists_mem_of_ne_nil _ h.nonempty
  obtain ⟨hlt, hne⟩ := hkey name hname (hbegins name hname)
  by_cases hlong : 2 ≤ group.2.length
  · exact Nat.not_le.mpr hlt (heq ▸ h.long hlong)
  · have hone : group.2 = [name] := by
      have hpos := List.length_pos_of_mem hname
      obtain ⟨lone, hlone⟩ := List.length_eq_one_iff.mp (show group.2.length = 1 by omega)
      have heq : name = lone := List.mem_singleton.mp (hlone ▸ hname)
      rw [hlone, heq]
    exact hne (heq.trans (h.lone name hone)).symm

theorem mem_leaveOut {members names : List (List α)} {name : List α} :
    name ∈ leaveOut members names ↔ name ∈ names ∧ name ∉ members := by
  simp [leaveOut]

section

variable {minLength : Nat} {reference : List α} {others : List (List α)} {g : Gathering α}

theorem Gathered.members_sublist (h : Gathered minLength reference others g) :
    g.members.Sublist (reference :: others) := by
  cases h with
  | alone => exact (List.nil_sublist others).cons_cons reference
  | bound _ hmembers => exact (hmembers ▸ List.filter_sublist).cons_cons reference

/-- The name that shares most has the beginning, too. -/
theorem Longest.exists_mem_filter {stem : List α} (h : Longest minLength reference others stem) :
    ∃ name ∈ others.filter (stem.isPrefixOf ·), commonPrefix reference name = stem := by
  obtain ⟨name, hname, rfl⟩ := h.shared
  have hbegins := commonPrefix_prefix_right reference name
  exact ⟨name, List.mem_filter.mpr ⟨hname, List.isPrefixOf_iff_prefix.mpr hbegins⟩, rfl⟩

theorem Gathered.formed (h : Gathered minLength reference others g) :
    Formed minLength (g.stem.getD reference, g.members) := by
  cases h with
  | alone short =>
    exact {
      nonempty := List.cons_ne_nil _ _
      lone := fun name hname => (List.cons.inj hname).1
      long := fun hlong => absurd hlong (Nat.lt_irrefl 1)
      longest := fun p => List.forall_mem_singleton.symm }
  | @bound stem h members hmembers =>
    -- one of the others shares no more than the key, so no longer beginning is shared by all
    obtain ⟨closest, hclosest, hstem⟩ := h.exists_mem_filter
    rw [← hmembers] at hclosest
    exact {
      nonempty := List.cons_ne_nil _ _
      lone := fun name hname => by
        rw [(List.cons.inj hname).2] at hclosest
        cases hclosest
      long := fun _ => h.long
      longest := fun p => by
        constructor
        · intro hp name hname
          rcases List.mem_cons.mp hname with rfl | hname
          · exact hp.trans h.prefix_reference
          · rw [hmembers, List.mem_filter] at hname
            exact hp.trans (List.isPrefixOf_iff_prefix.mp hname.2)
        · intro hp
          have hboth := prefix_commonPrefix_iff.mpr
            ⟨hp reference List.mem_cons_self, hp closest (List.mem_cons_of_mem _ hclosest)⟩
          rwa [hstem] at hboth }

/-- A group claims all names that it should. -/
theorem Gathered.unclaimed (h : Gathered minLength reference others g) {name : List α}
    (hname : name ∈ leaveOut g.members others) :
    Unclaimed minLength (g.stem.getD reference) name := by
  obtain ⟨hother, hmembers⟩ := mem_leaveOut.mp hname
  intro hbegins
  cases h with
  | alone short =>
    have hle : reference.length ≤ (commonPrefix reference name).length :=
      length_le_commonPrefix List.prefix_rfl hbegins
    exact ⟨Nat.lt_of_le_of_lt hle (short name hother), fun heq => hmembers (by simp [heq])⟩
  | bound h hfilter =>
    -- the name has the stem, so it is a member
    refine absurd (List.mem_cons_of_mem _ ?_) hmembers
    rw [hfilter, List.mem_filter]
    exact ⟨hother, List.isPrefixOf_iff_prefix.mpr hbegins⟩

end

/-! ## All groups -/

theorem insert_eq_append {groups : PrefixGroups α} {stem : List α} (members : List (List α))
    (h : ∀ group ∈ groups, group.1 ≠ stem) :
    groups.insert stem members = groups ++ [(stem, members)] := by
  have hnone : ¬groups.any (·.1 = stem) := by
    rw [List.any_eq_true]
    rintro ⟨group, hgroup, heq⟩
    exact h group hgroup (by simpa using heq)
  rw [insert, if_neg hnone]

/-- The groups of the names that are left go behind the groups that left them. -/
theorem splitInto_eq (minLength : Nat) (names : List (List α)) : ∀ groups : PrefixGroups α,
    (∀ group ∈ groups, ∀ name ∈ names, Unclaimed minLength group.1 name) →
      splitInto minLength groups names = groups ++ greedy minLength names := by
  refine greedy_induction minLength (motive := fun names emitted => ∀ groups : PrefixGroups α,
    (∀ group ∈ groups, ∀ name ∈ names, Unclaimed minLength group.1 name) →
      splitInto minLength groups names = groups ++ emitted) ?_ ?_ names
  · intro groups _
    rw [splitInto, List.append_nil]
  · intro reference others g hg hgather ih groups h
    have hkeys : ∀ earlier ∈ groups, earlier.1 ≠ g.stem.getD reference :=
      fun earlier hearlier => hgather.formed.key_ne fun name hname =>
        h earlier hearlier name (hgather.members_sublist.subset hname)
    rw [splitInto, ← hg, insert_eq_append _ hkeys, ih, List.append_assoc, List.singleton_append]
    refine List.forall_mem_append.mpr ⟨fun earlier hearlier name hname => ?_, ?_⟩
    · exact h earlier hearlier name (List.mem_cons_of_mem _ (mem_leaveOut.mp hname).1)
    · exact List.forall_mem_singleton.mpr fun name hname => hgather.unclaimed hname

/-- **The groups are those of the greedy procedure**: each name that is left takes the names
with the longest beginning that it shares with any other. -/
theorem split_eq_greedy (minLength : Nat) (names : List (List α)) :
    split minLength names = greedy minLength names :=
  splitInto_eq minLength names [] (by simp)

end PrefixGroups

end MetadataBlock
