import Mathlib.Data.List.Induction
import Mathlib.Data.List.Nodup
import MetadataBlock.Lint.BlockRules
import MetadataBlock.Lint.Suggestion

/-!
# Lists in order of first occurrence

Several loops keep what they see for the first time, in order. All of them come
to `List.eraseDups`.

- `nodup_eraseDups`, `pairwise_idxOf_eraseDups`, `eraseDups_of_nodup`,
  `eraseDups_append_of_subset`: the laws of `eraseDups` that the rest needs;
- `foldl_push_eq`: the loop that adds an element unless it is there already;
- `find?_eq_some_iff_of_nodup`: look-up by a key that no two elements share;
- `groupBy_eq`: grouping by a key gives every key that occurs its elements;
- `groupBy_lt_two_iff`: no group has two elements if and only if no key occurs
  twice.
-/

namespace MetadataBlock

section

variable {α : Type} [BEq α] [LawfulBEq α]

theorem eraseDups_concat_of_mem {l : List α} {a : α} (h : a ∈ l) :
    (l ++ [a]).eraseDups = l.eraseDups := by
  rw [List.eraseDups_append]
  simp [List.removeAll, h]

theorem eraseDups_concat_of_not_mem {l : List α} {a : α} (h : a ∉ l) :
    (l ++ [a]).eraseDups = l.eraseDups ++ [a] := by
  rw [List.eraseDups_append]
  simp [List.removeAll, h, List.eraseDups_cons]

/-- From the right, as what is added last is the last to be kept or left out. -/
theorem nodup_eraseDups (l : List α) : l.eraseDups.Nodup := by
  induction l using List.reverseRecOn with
  | nil => simp
  | append_singleton l a ih =>
    by_cases h : a ∈ l
    · rw [eraseDups_concat_of_mem h]
      exact ih
    · rw [eraseDups_concat_of_not_mem h, List.nodup_append]
      refine ⟨ih, by simp, ?_⟩
      rintro b hb c hc rfl
      rw [List.mem_singleton.mp hc] at hb
      exact h (List.mem_eraseDups.mp hb)

theorem eraseDups_of_nodup {l : List α} (h : l.Nodup) : l.eraseDups = l := by
  induction l using List.reverseRecOn with
  | nil => rfl
  | append_singleton l a ih =>
    obtain ⟨hl, -, hne⟩ := List.nodup_append.mp h
    have ha : a ∉ l := fun hmem => hne a hmem a (List.mem_singleton_self a) rfl
    rw [eraseDups_concat_of_not_mem ha, ih hl]

/-- What is kept is in the order of the first places. An element that is added at the end comes
behind all that were there, and moves none of them. -/
theorem pairwise_idxOf_eraseDups (l : List α) :
    l.eraseDups.Pairwise fun a b => l.idxOf a < l.idxOf b := by
  induction l using List.reverseRecOn with
  | nil => exact .nil
  | append_singleton l a ih =>
    -- the elements that were there keep their places
    have hplace : ∀ b ∈ l.eraseDups, (l ++ [a]).idxOf b = l.idxOf b := by
      intro b hb
      rw [List.idxOf_append, if_pos (List.mem_eraseDups.mp hb)]
    have hkept : l.eraseDups.Pairwise fun b c => (l ++ [a]).idxOf b < (l ++ [a]).idxOf c := by
      refine ih.imp_of_mem fun hb hc hlt => ?_
      rwa [hplace _ hb, hplace _ hc]
    by_cases h : a ∈ l
    · rw [eraseDups_concat_of_mem h]
      exact hkept
    · rw [eraseDups_concat_of_not_mem h, List.pairwise_append]
      refine ⟨hkept, List.pairwise_singleton _ _, fun b hb c hc => ?_⟩
      rw [List.mem_singleton.mp hc, hplace b hb, List.idxOf_append, if_neg h]
      exact Nat.lt_add_left _ (List.idxOf_lt_length_of_mem (List.mem_eraseDups.mp hb))

/-- What occurred before is not kept again. -/
theorem eraseDups_append_of_subset {l l' : List α} (h : ∀ a ∈ l', a ∈ l) :
    (l ++ l').eraseDups = l.eraseDups := by
  have hnil : l'.removeAll l = [] := by
    rw [List.removeAll, List.filter_eq_nil_iff]
    intro a ha
    simp [h a ha]
  rw [List.eraseDups_append, hnil, List.eraseDups_nil, List.append_nil]

/-- Adding every element that is not there yet, in whatever way the test and the addition are
written: the loop holds what it has seen without repetitions. -/
theorem foldl_push_eq {push : List α → α → List α}
    (hmem : ∀ seen a, a ∈ seen → push seen a = seen)
    (hnew : ∀ seen a, a ∉ seen → push seen a = seen ++ [a]) (before l : List α) :
    l.foldl push before.eraseDups = (before ++ l).eraseDups := by
  -- what the loop holds is what came before, without repetitions
  induction l generalizing before with
  | nil => rw [List.append_nil]; rfl
  | cons a l ih =>
    have hpush : push before.eraseDups a = (before ++ [a]).eraseDups := by
      by_cases h : a ∈ before
      · rw [hmem _ a (List.mem_eraseDups.mpr h), eraseDups_concat_of_mem h]
      · rw [hnew _ a fun hc => h (List.mem_eraseDups.mp hc), eraseDups_concat_of_not_mem h]
    rw [List.foldl_cons, hpush, ih, List.append_assoc, List.singleton_append]

end

/-- Where no key occurs twice, what is found by its key is what has the key. Without the
condition the first such element would be found. -/
theorem find?_eq_some_iff_of_nodup {α κ : Type} [BEq κ] [LawfulBEq κ] {l : List α} {key : α → κ}
    (hkeys : (l.map key).Nodup) {k : κ} {a : α} :
    l.find? (key · == k) = some a ↔ a ∈ l ∧ key a = k := by
  constructor
  · intro h
    have hkey := List.find?_some h
    exact ⟨List.mem_of_find?_eq_some h, eq_of_beq hkey⟩
  · rintro ⟨hmem, rfl⟩
    have hsome : (l.find? (key · == key a)).isSome = true :=
      List.find?_isSome.mpr ⟨a, hmem, beq_self_eq_true (key a)⟩
    obtain ⟨found, hfound⟩ := Option.isSome_iff_exists.mp hsome
    have hkey := List.find?_some hfound
    rw [hfound, List.inj_on_of_nodup_map hkeys (List.mem_of_find?_eq_some hfound) hmem
      (eq_of_beq hkey)]

theorem distinct_eq (texts : List Text) : Suggestion.distinct texts = texts.eraseDups := by
  refine foldl_push_eq (fun seen t h => ?_) (fun seen t h => ?_) [] texts
  · rw [if_pos (List.contains_iff_mem.mpr h)]
  · rw [if_neg fun hc => h (List.contains_iff_mem.mp hc)]

/-! ## Groups -/

namespace BlockRules

section

variable {κ α : Type} [DecidableEq κ]

/-- The groups of some elements: every key that occurs, with its elements. -/
def groupsOf (keyOf : α → Option κ) (elements : List α) : List (κ × List α) :=
  (elements.filterMap keyOf).eraseDups.map fun key =>
    (key, elements.filter fun a => keyOf a = some key)

/-- There is a group of a key if the key occurs. -/
theorem any_groupsOf {keyOf : α → Option κ} {elements : List α} {key : κ} :
    (groupsOf keyOf elements).any (·.1 = key) = true ↔ key ∈ elements.filterMap keyOf := by
  rw [groupsOf, List.any_map, List.any_eq_true]
  constructor
  · rintro ⟨k, hk, heq⟩
    have : k = key := by simpa using heq
    exact this ▸ List.mem_eraseDups.mp hk
  · intro h
    exact ⟨key, List.mem_eraseDups.mpr h, by simp⟩

theorem groupsOf_concat_none {keyOf : α → Option κ} {elements : List α} {a : α}
    (h : keyOf a = none) : groupsOf keyOf (elements ++ [a]) = groupsOf keyOf elements := by
  simp [groupsOf, h]

/-- An element with a key goes to the end of the group of its key, or starts the last group if
the key is new. -/
theorem groupsOf_concat_some {keyOf : α → Option κ} {elements : List α} {a : α} {key : κ}
    (h : keyOf a = some key) :
    groupsOf keyOf (elements ++ [a]) = addToGroup (groupsOf keyOf elements) key a := by
  have hkeys : (elements ++ [a]).filterMap keyOf = elements.filterMap keyOf ++ [key] := by
    simp [h]
  rw [addToGroup]
  split
  · next hany =>
    have hmem := any_groupsOf.mp hany
    -- the key has a group already, which grows; the others stay
    rw [groupsOf, hkeys, eraseDups_concat_of_mem hmem, groupsOf, List.map_map]
    refine List.map_congr_left fun k _ => ?_
    by_cases hk : k = key
    · subst hk
      simp [h]
    · simp [h, hk, Ne.symm hk]
  · next hany =>
    have hmem : key ∉ elements.filterMap keyOf := fun hmem => hany (any_groupsOf.mpr hmem)
    -- the key is new, so its group is added behind the others
    rw [groupsOf, hkeys, eraseDups_concat_of_not_mem hmem, List.map_append, groupsOf]
    congr 1
    · refine List.map_congr_left fun k hk => ?_
      have hne : key ≠ k := fun e => hmem (e ▸ List.mem_eraseDups.mp hk)
      simp [h, hne]
    · have hnone : elements.filter (fun b => keyOf b = some key) = [] := by
        rw [List.filter_eq_nil_iff]
        intro b hb heq
        exact hmem (List.mem_filterMap.mpr ⟨b, hb, by simpa using heq⟩)
      simp [h, hnone]

/-- Grouping by a key gives every key that occurs, in order of its first occurrence, the
elements that have it, in order. Each step of the fold adds one element to the groups of those
before it. -/
theorem groupBy_eq (keyOf : α → Option κ) (elements : List α) :
    groupBy keyOf elements = groupsOf keyOf elements := by
  -- from the right, as the fold takes the last element last
  induction elements using List.reverseRecOn with
  | nil => rfl
  | append_singleton elements a ih =>
    rw [groupBy, List.foldl_append, List.foldl_cons, List.foldl_nil,
      ← show groupBy keyOf elements = elements.foldl _ [] from rfl, ih]
    cases h : keyOf a with
    | none => rw [groupsOf_concat_none h]
    | some key => rw [groupsOf_concat_some h]

/-- No group has two elements if and only if no key occurs twice, as a group is as long as its
key is frequent. -/
theorem groupBy_lt_two_iff (keyOf : α → Option κ) (elements : List α) :
    (∀ g ∈ groupBy keyOf elements, g.2.length < 2) ↔ (elements.filterMap keyOf).Nodup := by
  rw [groupBy_eq, groupsOf, List.forall_mem_map, List.nodup_iff_count]
  have hcount : ∀ key, (elements.filterMap keyOf).count key
      = (elements.filter fun a => keyOf a = some key).length := by
    intro key
    rw [List.count_filterMap, List.countP_eq_length_filter]
    refine congrArg List.length (List.filter_congr fun a _ => ?_)
    rw [Bool.eq_iff_iff, beq_iff_eq, decide_eq_true_iff]
  constructor
  · intro h key
    rw [hcount]
    by_cases hmem : key ∈ elements.filterMap keyOf
    · exact Nat.lt_succ_iff.mp (h key (List.mem_eraseDups.mpr hmem))
    · rw [← hcount, List.count_eq_zero_of_not_mem hmem]
      exact Nat.zero_le 1
  · intro h key _
    exact Nat.lt_succ_iff.mpr (hcount key ▸ h key)

end

end BlockRules

end MetadataBlock
