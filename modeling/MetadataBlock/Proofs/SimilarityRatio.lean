import Mathlib.Algebra.Order.Field.Rat
import Mathlib.Data.List.Induction
import Mathlib.Data.Nat.SuccPred
import Mathlib.Order.SuccPred.Archimedean
import MetadataBlock.Proofs.BlockTotal
import MetadataBlock.Text.Basic

/-!
# The ratio is a sound similarity

The matching blocks of two lists stand in the same order in both and do not overlap, so that
their letters are a common subsequence. This bounds the ratio by 1, which only equal lists
reach; so a value that is among the candidates is its own closest match.

- `LongestCommonSubsequence`: the bound on what can be matched;
- `BlockTotal.exists_subsequence`: the letters of the matching blocks;
- `blockTotal_self`, `matched_eq_zero_iff`, `ratio_eq_one_iff`: both ends of the scale;
- `FirstClosest`, `exists_closest`: the first candidate with the greatest ratio;
- `ratio_sound`: the laws of the ratio.
-/

namespace MetadataBlock.Similarity

variable {α : Type}

/-! ## Common subsequences -/

/-- A common subsequence of two lists that is as long as any. -/
structure LongestCommonSubsequence (a b s : List α) : Prop where
  left : s.Sublist a
  right : s.Sublist b
  longest : ∀ t : List α, t.Sublist a → t.Sublist b → t.length ≤ s.length

/-- The lengths of common subsequences. -/
def commonLengths (a b : List α) : Set Nat :=
  {n | ∃ s : List α, s.Sublist a ∧ s.Sublist b ∧ s.length = n}

/-- There is a longest common subsequence: the empty list is a common one, and none is longer
than the first list. -/
theorem exists_longestCommonSubsequence (a b : List α) :
    ∃ s, LongestCommonSubsequence a b s := by
  have hne : (commonLengths a b).Nonempty := ⟨0, [], List.nil_sublist a, List.nil_sublist b, rfl⟩
  have hbdd : BddAbove (commonLengths a b) := by
    refine ⟨a.length, ?_⟩
    rintro n ⟨s, ha, -, rfl⟩
    exact ha.length_le
  obtain ⟨_, ⟨s, ha, hb, rfl⟩, hgreatest⟩ := hbdd.exists_isGreatest_of_nonempty hne
  exact ⟨s, ha, hb, fun t hta htb => hgreatest ⟨t, hta, htb, rfl⟩⟩

section

variable {a b : List α} {w : Window} {m : Block}

/-- The letters of a common block, read from either list. -/
theorem Common.take_drop_eq (h : Common a b w m) :
    (a.drop m.left).take m.size = (b.drop m.right).take m.size := by
  refine List.ext_getElem? fun k => ?_
  rw [List.getElem?_take, List.getElem?_take, List.getElem?_drop, List.getElem?_drop]
  split
  · next hk => exact h.agree k hk
  · rfl

theorem eq_front_block_behind (l : List α) (i n : Nat) :
    l = l.take i ++ ((l.drop i).take n ++ l.drop (i + n)) := by
  rw [← List.drop_drop, List.take_append_drop, List.take_append_drop]

/-- The matching blocks are a common subsequence, block by block. What is in front of a
block in one list is matched only with what is in front of it in the other, and likewise
behind it. -/
theorem BlockTotal.exists_subsequence {n : Nat} (h : BlockTotal a b n) :
    ∃ s : List α, s.Sublist a ∧ s.Sublist b ∧ s.length = n := by
  induction h with
  | @apart a b _ => exact ⟨[], List.nil_sublist a, List.nil_sublist b, rfl⟩
  | @around a b m p q hm _ _ _ ihfront ihbehind =>
    obtain ⟨front, hfa, hfb, rfl⟩ := ihfront
    obtain ⟨behind, hba, hbb, rfl⟩ := ihbehind
    have hblock := hm.mem.take_drop_eq
    have hlength : ((a.drop m.left).take m.size).length = m.size := by
      have hle : m.left + m.size ≤ a.length := hm.mem.left_le
      rw [List.length_take, List.length_drop]
      omega
    -- both lists are what stands in front of the block, the block, and what stands behind it
    refine ⟨front ++ ((a.drop m.left).take m.size ++ behind), ?_, ?_, ?_⟩
    · conv => rhs; rw [eq_front_block_behind a m.left m.size]
      exact hfa.append ((List.Sublist.refl _).append hba)
    · conv => rhs; rw [eq_front_block_behind b m.right m.size]
      rw [hblock]
      exact hfb.append ((List.Sublist.refl _).append hbb)
    · rw [List.length_append, List.length_append, hlength]
      omega

/-- The longest block that a list has in common with itself is the whole list, which leaves
nothing in front and nothing behind. -/
theorem blockTotal_self (a : List α) : BlockTotal a a a.length := by
  by_cases hempty : a = []
  · subst hempty
    exact .apart fun x hx => absurd hx List.not_mem_nil
  · have hwhole : FirstLongest (Common a a (.whole a a)) ⟨0, 0, a.length⟩ := by
      refine ⟨?_, fun m hm => ?_, fun m hm htie => ?_⟩
      · exact ⟨Nat.le_refl _, by simp [Window.whole], Nat.le_refl _, by simp [Window.whole],
          fun k _ => rfl⟩
      · have hle : m.left + m.size ≤ a.length := hm.left_le
        show m.size ≤ a.length
        omega
      · show 0 < m.left ∨ 0 = m.left ∧ 0 ≤ m.right
        omega
    have hsize : (⟨0, 0, a.length⟩ : Block).size ≠ 0 := fun h =>
      hempty (List.length_eq_zero_iff.mp h)
    -- nothing is left in front of the block or behind it
    have hnone : ∀ l : List α, ∀ x ∈ l.take 0, x ∉ l.take 0 := by simp
    have hrest : ∀ x ∈ a.drop (0 + a.length), x ∉ a.drop (0 + a.length) := by simp
    exact .around hwhole hsize (.apart (hnone a)) (.apart hrest)

end

/-! ## The ratio -/

section

variable [DecidableEq α] {a b : List α}

/-- No more letters are matched than either list has. -/
theorem matched_le_length (a b : List α) : matched a b ≤ a.length ∧ matched a b ≤ b.length := by
  obtain ⟨s, ha, hb, hlength⟩ := (blockTotal_matched a b).exists_subsequence
  exact ⟨hlength ▸ ha.length_le, hlength ▸ hb.length_le⟩

theorem matched_le_longest (a b : List α) :
    ∃ s, LongestCommonSubsequence a b s ∧ matched a b ≤ s.length := by
  obtain ⟨t, hta, htb, hlength⟩ := (blockTotal_matched a b).exists_subsequence
  obtain ⟨s, hs⟩ := exists_longestCommonSubsequence a b
  exact ⟨s, hs, hlength ▸ hs.longest t hta htb⟩

theorem matched_self (a : List α) : matched a a = a.length :=
  (blockTotal_matched a a).unique (blockTotal_self a)

/-- Nothing is matched if and only if no letter is shared, since a shared letter is a common
block. -/
theorem matched_eq_zero_iff : matched a b = 0 ↔ ∀ x ∈ a, x ∉ b := by
  constructor
  · intro hzero
    have htotal := blockTotal_matched a b
    rw [hzero] at htotal
    generalize hn : 0 = n at htotal
    cases htotal with
    | apart hapart => exact hapart
    | around _ hsize => omega
  · intro hapart
    exact (blockTotal_matched a b).unique (.apart hapart)

/-- The ratio is what the matched letters are of all letters. -/
theorem ratio_mul_length (a b : List α) :
    ratio a b * ((a.length + b.length : Nat) : Rat) = ((2 * matched a b : Nat) : Rat) := by
  by_cases hempty : a.length + b.length = 0
  · have hzero : matched a b = 0 := by
      have := (matched_le_length a b).1
      omega
    rw [hempty, hzero, Nat.mul_zero, Nat.cast_zero, mul_zero]
  · rw [ratio, if_neg hempty]
    exact div_mul_cancel₀ _ (Nat.cast_ne_zero.mpr hempty)

theorem ratio_nonneg (a b : List α) : 0 ≤ ratio a b := by
  rw [ratio]
  split
  · exact zero_le_one
  · exact div_nonneg (Nat.cast_nonneg _) (Nat.cast_nonneg _)

theorem ratio_le_one (a b : List α) : ratio a b ≤ 1 := by
  obtain ⟨ha, hb⟩ := matched_le_length a b
  rw [ratio]
  split
  · exact le_refl _
  · exact div_le_one_of_le₀ (Nat.cast_le.mpr (by omega)) (Nat.cast_nonneg _)

/-- Only equal lists reach the end of the scale. All letters of both are matched then, so the
common subsequence is both of them. -/
theorem ratio_eq_one_iff : ratio a b = 1 ↔ a = b := by
  have hscale := ratio_mul_length a b
  constructor
  · intro hone
    rw [hone, one_mul, Nat.cast_inj] at hscale
    obtain ⟨s, hsa, hsb, hlength⟩ := (blockTotal_matched a b).exists_subsequence
    obtain ⟨ha, hb⟩ := matched_le_length a b
    -- the matched letters are as many as there are letters on either side
    have heqa : s = a := hsa.eq_of_length (by omega)
    have heqb : s = b := hsb.eq_of_length (by omega)
    rw [← heqa, heqb]
  · rintro rfl
    rw [ratio]
    split
    · rfl
    · next hne =>
      rw [matched_self, ← Nat.two_mul]
      exact div_self (Nat.cast_ne_zero.mpr (by omega))

/-! ## The closest candidate -/

/-- The first candidate with the greatest ratio: those in front of it are less similar, and
those behind it are not more similar. -/
def FirstClosest (value : List α) (candidates : List (List α)) (c : List α) : Prop :=
  ∃ before after, candidates = before ++ c :: after
    ∧ (∀ x ∈ before, ratio value x < ratio value c) ∧ ∀ x ∈ after, ratio value x ≤ ratio value c

theorem FirstClosest.mem {value c : List α} {candidates : List (List α)}
    (h : FirstClosest value candidates c) : c ∈ candidates := by
  obtain ⟨before, after, rfl, -, -⟩ := h
  exact List.mem_append_right before List.mem_cons_self

/-- No candidate is more similar than the first of the closest. -/
theorem FirstClosest.ratio_le {value c x : List α} {candidates : List (List α)}
    (h : FirstClosest value candidates c) (hx : x ∈ candidates) :
    ratio value x ≤ ratio value c := by
  obtain ⟨before, after, rfl, hbefore, hafter⟩ := h
  rcases List.mem_append.mp hx with hx | hx
  · exact le_of_lt (hbefore x hx)
  · rcases List.mem_cons.mp hx with rfl | hx
    · exact le_refl _
    · exact hafter x hx

/-- One of two first closest candidates would be in front of the other, or they are the same. -/
theorem FirstClosest.unique {value c c' : List α} {candidates : List (List α)}
    (h : FirstClosest value candidates c) (h' : FirstClosest value candidates c') : c = c' := by
  have hle := h.ratio_le h'.mem
  have hle' := h'.ratio_le h.mem
  obtain ⟨before, after, rfl, hbefore, -⟩ := h
  obtain ⟨before', after', heq, hbefore', -⟩ := h'
  -- the one in front would be less similar than the other
  rcases List.append_eq_append_iff.mp heq with ⟨mid, rfl, hmid⟩ | ⟨mid, rfl, hmid⟩
  · cases mid with
    | nil => exact (List.cons.inj hmid).1
    | cons x mid =>
      obtain ⟨rfl, -⟩ := List.cons.inj hmid
      exact absurd hle (not_le.mpr (hbefore' c (by simp)))
  · cases mid with
    | nil => exact (List.cons.inj hmid).1.symm
    | cons x mid =>
      obtain ⟨rfl, -⟩ := List.cons.inj hmid
      exact absurd hle' (not_le.mpr (hbefore c' (by simp)))

/-- Among candidates there is a closest one, and it is returned with its ratio. The
induction adds a candidate at the end, which replaces the one that was found only if it is
more similar. -/
theorem exists_closest (value : List α) {candidates : List (List α)} (h : candidates ≠ []) :
    ∃ c, closest? value candidates = some (c, ratio value c) ∧ FirstClosest value candidates c := by
  induction candidates using List.reverseRecOn with
  | nil => exact absurd rfl h
  | append_singleton candidates x ih =>
    rw [closest?, List.foldl_append, List.foldl_cons, List.foldl_nil,
      ← show closest? value candidates = candidates.foldl _ none from rfl]
    by_cases hnone : candidates = []
    · subst hnone
      exact ⟨x, rfl, [], [], rfl, by simp, by simp⟩
    · obtain ⟨c, hc, hclosest⟩ := ih hnone
      rw [hc]
      -- only a candidate that is more similar replaces the one found so far
      by_cases hlt : ratio value c < ratio value x
      · refine ⟨x, by simp only [hlt, if_true], candidates, [], rfl, fun y hy => ?_, by simp⟩
        exact lt_of_le_of_lt (hclosest.ratio_le hy) hlt
      · obtain ⟨before, after, rfl, hbefore, hafter⟩ := hclosest
        refine ⟨c, by simp only [hlt, if_false], before, after ++ [x], by simp, hbefore, ?_⟩
        intro y hy
        rcases List.mem_append.mp hy with hy | hy
        · exact hafter y hy
        · exact List.mem_singleton.mp hy ▸ not_lt.mp hlt

/-- A value among the candidates is its own closest match: its ratio is one, and only the value
itself has that. -/
theorem closest_of_mem {value : List α} {candidates : List (List α)} (h : value ∈ candidates) :
    closest? value candidates = some (value, 1) := by
  obtain ⟨c, hc, hclosest⟩ := exists_closest value (List.ne_nil_of_mem h)
  have hself : ratio value value = 1 := ratio_eq_one_iff.mpr rfl
  have hone : ratio value c = 1 :=
    le_antisymm (ratio_le_one value c) (hself ▸ hclosest.ratio_le h)
  rw [hc, hone, ratio_eq_one_iff.mp hone]

/-- No more letters are matched than a longest common subsequence has, none exactly if no
letter is shared; the ratio lies between 0 and 1 and is 1 exactly for equal lists; and a value
among the candidates is its own closest match. -/
theorem ratio_sound (a b : List α) :
    (∃ s, LongestCommonSubsequence a b s ∧ matched a b ≤ s.length)
      ∧ ratio a b * ((a.length + b.length : Nat) : Rat) = ((2 * matched a b : Nat) : Rat)
      ∧ 0 ≤ ratio a b ∧ ratio a b ≤ 1
      ∧ (matched a b = 0 ↔ ∀ x ∈ a, x ∉ b)
      ∧ (ratio a b = 1 ↔ a = b)
      ∧ ∀ candidates, a ∈ candidates → closest? a candidates = some (a, 1) :=
  ⟨matched_le_longest a b, ratio_mul_length a b, ratio_nonneg a b, ratio_le_one a b,
    matched_eq_zero_iff, ratio_eq_one_iff, fun _ => closest_of_mem⟩

/-- A key among keys is its own closest match. -/
theorem ratio_sound_title :
    ("title" : Text) ∈ (["name", "fieldType", "title"] : List Text)
      ∧ closest? ("title" : Text) (["name", "fieldType", "title"] : List Text)
        = some (("title" : Text), 1) := by
  have hmem : ("title" : Text) ∈ (["name", "fieldType", "title"] : List Text) := by decide
  obtain ⟨-, -, -, -, -, -, hclosest⟩ := ratio_sound ("title" : Text) ("fieldType" : Text)
  exact ⟨hmem, hclosest _ hmem⟩

end

end MetadataBlock.Similarity
