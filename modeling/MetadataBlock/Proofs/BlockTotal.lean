import Mathlib.Logic.Function.Iterate
import MetadataBlock.Proofs.CommonBlock

/-!
# The total of the matching blocks

The Ratcliff/Obershelp total of two lists is defined by recursion on their parts: the size
of the longest common block, and the totals of what stands in front of it and behind it. The
comparison works off windows instead, the last one that was left over first, and adds the
sizes up on the way.

- `BlockTotal`: the recursive definition; `BlockTotal.unique`: it has one value;
- `firstLongest_part`: a window is compared as its parts of the lists would be;
- `AddsUp`: the total of the windows that wait; `AddsUp.of_round`: a round keeps it and the
  count together;
- `exists_iterate_round`: the rounds come to an end;
- `matched_eq_blockTotal`: the comparison computes the total.
-/

namespace MetadataBlock.Similarity

variable {α : Type}

/-- The Ratcliff/Obershelp total of two lists: 0 if they share no letter, else the size of
their longest common block (the first one in the first list, then in the second), and the
totals of the parts on both sides of it. -/
inductive BlockTotal : List α → List α → Nat → Prop
  | apart {a b : List α} (h : ∀ x ∈ a, x ∉ b) : BlockTotal a b 0
  | around {a b : List α} {m : Block} {p q : Nat}
      (hm : FirstLongest (Common a b (.whole a b)) m) (hsize : m.size ≠ 0)
      (front : BlockTotal (a.take m.left) (b.take m.right) p)
      (behind : BlockTotal (a.drop (m.left + m.size)) (b.drop (m.right + m.size)) q) :
      BlockTotal a b (m.size + p + q)

/-! ## One value -/

theorem fits_whole (a b : List α) : (Window.whole a b).Fits a b :=
  ⟨Nat.zero_le _, Nat.le_refl _, Nat.zero_le _, Nat.le_refl _⟩

section

variable {a b : List α} {w : Window} {m : Block}

theorem part_whole (l : List α) : part 0 l.length l = l := by
  rw [part, List.take_length, List.drop_zero]

/-- The longest common block of whole lists is empty if and only if they share no letter. -/
theorem FirstLongest.whole_eq_zero_iff (h : FirstLongest (Common a b (.whole a b)) m) :
    m.size = 0 ↔ ∀ x ∈ a, x ∉ b := by
  rw [h.size_eq_zero_iff (fits_whole a b), Window.Apart, Window.whole, part_whole, part_whole]

end

/-- The total has one value. The longest common block is the same in both derivations, as it
comes first among the longest ones, and so the parts on both sides of it are the same too. -/
theorem BlockTotal.unique {a b : List α} {n n' : Nat} (h : BlockTotal a b n)
    (h' : BlockTotal a b n') : n = n' := by
  induction h generalizing n' with
  | apart hapart =>
    cases h' with
    | apart => rfl
    | around hm hsize => exact absurd (hm.whole_eq_zero_iff.mpr hapart) hsize
  | around hm hsize _ _ ihfront ihbehind =>
    cases h' with
    | apart hapart => exact absurd (hm.whole_eq_zero_iff.mpr hapart) hsize
    | around hm' _ front behind =>
      cases hm.unique hm'
      rw [ihfront front, ihbehind behind]

/-! ## Windows and parts -/

/-- The total of a window: that of the parts of the lists that it shows. -/
def WindowTotal (a b : List α) (w : Window) (n : Nat) : Prop :=
  BlockTotal (part w.leftFrom w.leftTo a) (part w.rightFrom w.rightTo b) n

theorem take_part {lo hi mid : Nat} (l : List α) (h : mid ≤ hi) :
    (part lo hi l).take (mid - lo) = part lo mid l := by
  rw [part, part, List.drop_take, List.drop_take, List.take_take, Nat.min_eq_left (by omega)]

theorem drop_part {lo hi mid : Nat} (l : List α) (h : lo ≤ mid) :
    (part lo hi l).drop (mid - lo) = part mid hi l := by
  rw [part, part, List.drop_drop, Nat.add_sub_cancel' h]

section

variable {a b : List α} {w : Window}

/-- The block as it stands in the parts that a window shows. -/
def Window.shift (w : Window) (m : Block) : Block :=
  ⟨m.left - w.leftFrom, m.right - w.rightFrom, m.size⟩

/-- A block of the parts that a window shows is a block of the window, moved by the place where
the window begins: inside the window the letters are the same. -/
theorem common_part (hw : w.Fits a b) {m : Block} (hleft : w.leftFrom ≤ m.left)
    (hright : w.rightFrom ≤ m.right) :
    Common (part w.leftFrom w.leftTo a) (part w.rightFrom w.rightTo b)
        (.whole (part w.leftFrom w.leftTo a) (part w.rightFrom w.rightTo b)) (w.shift m)
      ↔ Common a b w m := by
  have hlengthl : (part w.leftFrom w.leftTo a).length = w.leftTo - w.leftFrom := by
    rw [length_part, Nat.min_eq_left hw.leftTo_le]
  have hlengthr : (part w.rightFrom w.rightTo b).length = w.rightTo - w.rightFrom := by
    rw [length_part, Nat.min_eq_left hw.rightTo_le]
  -- inside the window, the letters of the parts are those of the lists
  have hletters : m.left + m.size ≤ w.leftTo → m.right + m.size ≤ w.rightTo → ∀ k < m.size,
      (part w.leftFrom w.leftTo a)[m.left - w.leftFrom + k]? = a[m.left + k]? ∧
        (part w.rightFrom w.rightTo b)[m.right - w.rightFrom + k]? = b[m.right + k]? := by
    intro hl hr k hk
    rw [getElem?_part a (by omega), getElem?_part b (by omega)]
    constructor <;> congr 1 <;> omega
  constructor
  · intro h
    have hl : m.left - w.leftFrom + m.size ≤ (part w.leftFrom w.leftTo a).length := h.left_le
    have hr : m.right - w.rightFrom + m.size ≤ (part w.rightFrom w.rightTo b).length := h.right_le
    have hfrom := hw.leftFrom_le
    have hfrom' := hw.rightFrom_le
    refine ⟨hleft, by omega, hright, by omega, fun k hk => ?_⟩
    obtain ⟨ha, hb⟩ := hletters (by omega) (by omega) k hk
    rw [← ha, ← hb]
    exact h.agree k hk
  · intro h
    have hl := h.left_le
    have hr := h.right_le
    refine ⟨Nat.zero_le _, ?_, Nat.zero_le _, ?_, fun k hk => ?_⟩
    · show m.left - w.leftFrom + m.size ≤ (part w.leftFrom w.leftTo a).length
      omega
    · show m.right - w.rightFrom + m.size ≤ (part w.rightFrom w.rightTo b).length
      omega
    · obtain ⟨ha, hb⟩ := hletters hl hr k hk
      show (part w.leftFrom w.leftTo a)[m.left - w.leftFrom + k]?
        = (part w.rightFrom w.rightTo b)[m.right - w.rightFrom + k]?
      rw [ha, hb]
      exact h.agree k hk

/-- The longest common block of a window is that of the parts which the window shows. Moving
blocks changes neither their sizes nor their order. -/
theorem firstLongest_part (hw : w.Fits a b) {m : Block} (h : FirstLongest (Common a b w) m) :
    FirstLongest (Common (part w.leftFrom w.leftTo a) (part w.rightFrom w.rightTo b)
      (.whole (part w.leftFrom w.leftTo a) (part w.rightFrom w.rightTo b))) (w.shift m) := by
  have hleft := h.mem.leftFrom_le
  have hright := h.mem.rightFrom_le
  -- every block of the parts is one of the window
  have hback : ∀ c, Common (part w.leftFrom w.leftTo a) (part w.rightFrom w.rightTo b)
      (.whole (part w.leftFrom w.leftTo a) (part w.rightFrom w.rightTo b)) c →
      Common a b w ⟨w.leftFrom + c.left, w.rightFrom + c.right, c.size⟩ := by
    intro c hc
    refine (common_part hw (Nat.le_add_right _ _) (Nat.le_add_right _ _)).mp ?_
    rwa [Window.shift, Nat.add_sub_cancel_left, Nat.add_sub_cancel_left]
  refine ⟨(common_part hw hleft hright).mpr h.mem, fun c hc => ?_, fun c hc htie => ?_⟩
  · have hle := h.longest _ (hback c hc)
    exact hle
  · have hstart := h.first _ (hback c hc) htie
    simp only [Block.StartsBy, Window.shift] at hstart ⊢
    omega

/-- What stands in front of a block lies in the lists, and so does what stands behind it. -/
theorem fits_inFrontOf (hw : w.Fits a b) {m : Block} (h : Common a b w m) :
    (w.inFrontOf m).Fits a b := by
  have hleft : m.left ≤ w.leftTo := Nat.le_of_add_right_le h.left_le
  have hright : m.right ≤ w.rightTo := Nat.le_of_add_right_le h.right_le
  exact ⟨h.leftFrom_le, Nat.le_trans hleft hw.leftTo_le, h.rightFrom_le,
    Nat.le_trans hright hw.rightTo_le⟩

theorem fits_behind (hw : w.Fits a b) {m : Block} (h : Common a b w m) : (w.behind m).Fits a b :=
  ⟨h.left_le, hw.leftTo_le, h.right_le, hw.rightTo_le⟩

/-- The total of a window around its longest common block. -/
theorem WindowTotal.around (hw : w.Fits a b) {m : Block} {p q : Nat}
    (hm : FirstLongest (Common a b w) m) (hsize : m.size ≠ 0)
    (front : WindowTotal a b (w.inFrontOf m) p) (behind : WindowTotal a b (w.behind m) q) :
    WindowTotal a b w (m.size + p + q) := by
  have hl := hm.mem.left_le
  have hr := hm.mem.right_le
  have hleft := hm.mem.leftFrom_le
  have hright := hm.mem.rightFrom_le
  refine BlockTotal.around (m := w.shift m) (firstLongest_part hw hm) hsize ?_ ?_
  · show BlockTotal (List.take (m.left - w.leftFrom) _) (List.take (m.right - w.rightFrom) _) p
    rw [take_part a (by omega), take_part b (by omega)]
    exact front
  · have hendl : m.left - w.leftFrom + m.size = m.left + m.size - w.leftFrom := by omega
    have hendr : m.right - w.rightFrom + m.size = m.right + m.size - w.rightFrom := by omega
    show BlockTotal (List.drop (m.left - w.leftFrom + m.size) _)
      (List.drop (m.right - w.rightFrom + m.size) _) q
    rw [hendl, hendr, drop_part a (by omega), drop_part b (by omega)]
    exact behind

/-- A window without a common block has nothing to add. -/
theorem WindowTotal.apart (hw : w.Fits a b) {m : Block} (hm : FirstLongest (Common a b w) m)
    (hsize : m.size = 0) : WindowTotal a b w 0 :=
  BlockTotal.apart ((firstLongest_part hw hm).whole_eq_zero_iff.mp hsize)

/-- A window with an empty side has nothing to add, as there is no letter on that side. -/
theorem windowTotal_of_empty (h : ¬ (w.leftFrom < w.leftTo ∧ w.rightFrom < w.rightTo)) :
    WindowTotal a b w 0 := by
  refine BlockTotal.apart fun x hx hx' => h ?_
  have hl : 0 < (part w.leftFrom w.leftTo a).length := List.length_pos_of_mem hx
  have hr : 0 < (part w.rightFrom w.rightTo b).length := List.length_pos_of_mem hx'
  rw [length_part] at hl hr
  omega

end

/-! ## Round by round -/

/-- What the totals of some windows add up to. -/
inductive AddsUp (a b : List α) : List Window → Nat → Prop
  | nil : AddsUp a b [] 0
  | cons {w : Window} {windows : List Window} {n sum : Nat} (hn : WindowTotal a b w n)
      (h : AddsUp a b windows sum) : AddsUp a b (w :: windows) (n + sum)

section

variable {a b : List α}

/-- A window that is left out because one of its sides is empty has nothing to add. -/
theorem AddsUp.of_unlessEmpty {w : Window} {windows : List Window} {n : Nat}
    (h : AddsUp a b (w.unlessEmpty ++ windows) n) :
    ∃ p q, WindowTotal a b w p ∧ AddsUp a b windows q ∧ n = p + q := by
  rw [Window.unlessEmpty] at h
  split at h
  · cases h with
    | cons hp hq => exact ⟨_, _, hp, hq, rfl⟩
  · next hempty => exact ⟨0, n, windowTotal_of_empty hempty, h, (Nat.zero_add n).symm⟩

/-- All windows that wait lie in the lists. -/
def Comparison.Fits (a b : List α) (c : Comparison) : Prop :=
  ∀ w ∈ c.waiting, w.Fits a b

theorem fits_of_mem_unlessEmpty {w w' : Window} (h : w.Fits a b) (hw' : w' ∈ w.unlessEmpty) :
    w'.Fits a b := by
  rw [Window.unlessEmpty] at hw'
  split at hw'
  · rwa [List.mem_singleton.mp hw']
  · cases hw'

variable [DecidableEq α]

/-- A round leaves windows that lie in the lists: those that waited, and the parts around a
block of one of them. -/
theorem Comparison.Fits.round {c : Comparison} (h : c.Fits a b) :
    (c.round a (placesOf b)).Fits a b := by
  obtain ⟨_ | ⟨w, rest⟩, count⟩ := c
  · exact h
  · have hw : w.Fits a b := h w List.mem_cons_self
    have hrest : ∀ w' ∈ rest, w'.Fits a b := fun w' hw' => h w' (List.mem_cons_of_mem w hw')
    have hcommon : Common a b w (longestIn a (placesOf b) w) := (firstLongest_longestIn hw).mem
    rw [Comparison.round]
    simp only
    split
    · exact hrest
    · -- a new window is beside the block, and any other was waiting before
      rintro w' hw'
      rcases List.mem_append.mp hw' with hbeside | hmem
      · rcases List.mem_append.mp hbeside with hbehind | hfront
        · exact fits_of_mem_unlessEmpty (fits_behind hw hcommon) hbehind
        · exact fits_of_mem_unlessEmpty (fits_inFrontOf hw hcommon) hfront
      · exact hrest w' hmem

/-- What has been counted and what waits come to a number together. -/
def Comparison.ComesTo (a b : List α) (c : Comparison) (n : Nat) : Prop :=
  ∃ sum, AddsUp a b c.waiting sum ∧ n = c.count + sum

/-- A round moves the size of a block from what waits to what has been counted. Read backwards:
what a round leaves comes to the number that its start comes to. -/
theorem Comparison.ComesTo.of_round {c : Comparison} {n : Nat} (hfits : c.Fits a b)
    (h : (c.round a (placesOf b)).ComesTo a b n) : c.ComesTo a b n := by
  obtain ⟨_ | ⟨w, rest⟩, count⟩ := c
  · exact h
  · have hw : w.Fits a b := hfits w List.mem_cons_self
    have hm : FirstLongest (Common a b w) (longestIn a (placesOf b) w) := firstLongest_longestIn hw
    rw [Comparison.round] at h
    simp only at h
    split at h
    · next hsize =>
      obtain ⟨sum, hrest, rfl⟩ := h
      exact ⟨0 + sum, .cons (.apart hw hm hsize) hrest, by rw [Nat.zero_add]⟩
    · next hsize =>
      obtain ⟨sum, hwaiting, rfl⟩ := h
      -- the windows beside the block wait in front of the others, the one behind it first
      rw [Window.beside, List.append_assoc] at hwaiting
      obtain ⟨q, sum', hbehind, hwaiting', rfl⟩ := hwaiting.of_unlessEmpty
      obtain ⟨p, sum'', hfront, hrest, rfl⟩ := hwaiting'.of_unlessEmpty
      refine ⟨_, .cons (.around hw hm hsize hfront hbehind) hrest, ?_⟩
      show count + _ + _ = count + _
      omega

/-- Round after round, what has been counted and what waits come to the same number, so the
count at the end is that number. The induction is that of the run itself, and the windows stay
inside the lists on the way. -/
theorem Comparison.comesTo_run {c : Comparison} (h : c.Fits a b) :
    c.ComesTo a b (c.run a (placesOf b)) := by
  fun_induction Comparison.run a (placesOf b) c with
  | case1 c hnone => exact ⟨0, hnone ▸ .nil, rfl⟩
  | case2 c _ ih => exact .of_round h (ih h.round)

/-- The rounds come to an end, with the number of letters matched as the count. -/
theorem Comparison.exists_iterate_round (places : Places α) (c : Comparison) :
    ∃ rounds, (Comparison.round a places)^[rounds] c = ⟨[], c.run a places⟩ := by
  fun_induction Comparison.run a places c with
  | case1 c hnone =>
    obtain ⟨waiting, count⟩ := c
    cases hnone
    exact ⟨0, rfl⟩
  | case2 c _ ih =>
    obtain ⟨rounds, hrounds⟩ := ih
    exact ⟨rounds + 1, by rw [Function.iterate_succ_apply, hrounds]⟩

/-- The comparison of two lists comes to their total. -/
theorem blockTotal_matched (a b : List α) : BlockTotal a b (matched a b) := by
  have hstart : (Comparison.start a b).Fits a b := fun w hw =>
    List.mem_singleton.mp hw ▸ fits_whole a b
  obtain ⟨sum, hwaiting, hsum⟩ := Comparison.comesTo_run hstart
  cases hwaiting with
  | cons hn hnil =>
    cases hnil
    have hwhole : BlockTotal (part 0 a.length a) (part 0 b.length b) _ := hn
    rw [part_whole, part_whole] at hwhole
    rw [matched, hsum]
    simpa [Comparison.start] using hwhole

/-- The comparison ends, and the number of letters that it matched is the Ratcliff/Obershelp
total of the two lists; the ratio is twice that total over the combined length, and 1 for two
empty lists. The order in which windows wait does not matter, as the total of a window depends
on the window alone. -/
theorem matched_eq_blockTotal (a b : List α) :
    ∃ r, (∀ n, BlockTotal a b n ↔ n = r)
      ∧ (∃ rounds, (Comparison.round a (placesOf b))^[rounds] (.start a b) = ⟨[], r⟩)
      ∧ matched a b = r
      ∧ ratio a b = if a = [] ∧ b = [] then 1
          else ((2 * r : Nat) : Rat) / ((a.length + b.length : Nat) : Rat) := by
  refine ⟨matched a b, fun n => ⟨fun h => h.unique (blockTotal_matched a b), ?_⟩,
    Comparison.exists_iterate_round (placesOf b) _, rfl, ?_⟩
  · rintro rfl
    exact blockTotal_matched a b
  · have hempty : a.length + b.length = 0 ↔ a = [] ∧ b = [] := by
      rw [Nat.add_eq_zero_iff, List.length_eq_zero_iff, List.length_eq_zero_iff]
    simp only [ratio, hempty]

end

end MetadataBlock.Similarity
