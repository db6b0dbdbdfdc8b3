import Mathlib.Data.List.Basic
import MetadataBlock.Names.Similarity
import MetadataBlock.Text.Basic

/-!
# The longest common block of a window

The search reads a window letter by letter. Between two letters it knows how long the
common runs are that end there, and which of the blocks that end before is the longest and,
among equally long ones, the first.

- `Common`, `FirstLongest`: blocks that two lists have in common, and which one is meant;
- `of_placesOf`: the places of a letter, in ascending order;
- `runTo`, `common_runTo`, `Common.size_le_runTo`: the longest block that ends at a place of
  each list;
- `Row`, `Row.visit`, `Row.skip`, `Row.extend`: what a pass over one letter knows, place by
  place;
- `firstLongest_longestIn`: the search finds the block that is meant;
- `SharedPart`, `common_iff_sharedPart`, `FirstLongest.size_eq_zero_iff`: common blocks as equal
  parts of the lists; there is none but the empty one if no letter is shared;
- `longestIn_firstSharedPart`: the search in these terms.
-/

namespace MetadataBlock.Similarity

variable {α : Type}

/-! ## Common blocks -/

/-- The window lies in the lists. -/
structure Window.Fits (w : Window) (a b : List α) : Prop where
  leftFrom_le : w.leftFrom ≤ w.leftTo
  leftTo_le : w.leftTo ≤ a.length
  rightFrom_le : w.rightFrom ≤ w.rightTo
  rightTo_le : w.rightTo ≤ b.length

/-- The block lies in the window, and the lists agree on it. -/
structure Common (a b : List α) (w : Window) (m : Block) : Prop where
  leftFrom_le : w.leftFrom ≤ m.left
  left_le : m.left + m.size ≤ w.leftTo
  rightFrom_le : w.rightFrom ≤ m.right
  right_le : m.right + m.size ≤ w.rightTo
  agree : ∀ k < m.size, a[m.left + k]? = b[m.right + k]?

/-- The block starts earlier in the first list, or at the same place there and no later in
the second. -/
def Block.StartsBy (m m' : Block) : Prop :=
  m.left < m'.left ∨ m.left = m'.left ∧ m.right ≤ m'.right

/-- Of the blocks in question the longest, and of equally long ones the first. -/
structure FirstLongest (P : Block → Prop) (m : Block) : Prop where
  mem : P m
  longest : ∀ m', P m' → m'.size ≤ m.size
  first : ∀ m', P m' → m'.size = m.size → m.StartsBy m'

theorem FirstLongest.unique {P : Block → Prop} {m m' : Block} (h : FirstLongest P m)
    (h' : FirstLongest P m') : m = m' := by
  have hsize : m.size = m'.size :=
    Nat.le_antisymm (h'.longest m h.mem) (h.longest m' h'.mem)
  have hstart : m.StartsBy m' := h.first m' h'.mem hsize.symm
  have hstart' : m'.StartsBy m := h'.first m h.mem hsize
  obtain ⟨left, right, size⟩ := m
  obtain ⟨left', right', size'⟩ := m'
  simp only [Block.StartsBy] at hstart hstart' hsize
  simp only [Block.mk.injEq]
  omega

/-! ## Blocks in reading order -/

/-- The block ends in the rows before `i`, or in row `i` before place `j`. -/
def Block.EndsBy (m : Block) (i j : Nat) : Prop :=
  m.left + m.size ≤ i ∨ m.left + m.size = i + 1 ∧ m.right + m.size ≤ j

/-- The common blocks that have been seen before place `j` of row `i`. -/
def Seen (a b : List α) (w : Window) (i j : Nat) (m : Block) : Prop :=
  Common a b w m ∧ m.EndsBy i j

section

variable {a b : List α} {w : Window} {i j : Nat}

/-- The best block stays the best one as long as no longer one is seen: of equally long
blocks that ends first which starts first. -/
theorem FirstLongest.keep {i' j' : Nat} {m : Block} (h : FirstLongest (Seen a b w i j) m)
    (hlater : m.EndsBy i j → m.EndsBy i' j')
    (hnew : ∀ m', Common a b w m' → m'.EndsBy i' j' → ¬ m'.EndsBy i j → m'.size ≤ m.size) :
    FirstLongest (Seen a b w i' j') m := by
  have hends : m.EndsBy i j := h.mem.2
  refine ⟨⟨h.mem.1, hlater hends⟩, ?_, ?_⟩
  · rintro m' ⟨hcommon, hends'⟩
    by_cases hold : m'.EndsBy i j
    · exact h.longest m' ⟨hcommon, hold⟩
    · exact hnew m' hcommon hends' hold
  · rintro m' ⟨hcommon, hends'⟩ hsize
    by_cases hold : m'.EndsBy i j
    · exact h.first m' ⟨hcommon, hold⟩ hsize
    · simp only [Block.EndsBy] at hends hold
      simp only [Block.StartsBy]
      omega

/-- What ends by the next place and did not end before ends at this place. -/
theorem ends_of_not_endsBy {m : Block} (h : m.EndsBy i (j + 1)) (hnot : ¬ m.EndsBy i j) :
    m.left + m.size = i + 1 ∧ m.right + m.size = j + 1 := by
  simp only [Block.EndsBy] at h hnot
  omega

/-- The first place behind the window ends a pass. The places ascend, so all that follow are
behind the window too. -/
theorem extend_behind {previous : Runs} {s : Scan} {places : List Nat}
    (hw : w.rightFrom ≤ w.rightTo) (h : ∀ k ∈ places, w.rightTo ≤ k) :
    s.extend w previous i places = s := by
  cases places with
  | nil => rfl
  | cons k places =>
    have hk : w.rightTo ≤ k := h k List.mem_cons_self
    rw [Scan.extend, if_neg (by omega), if_pos hk]

end

/-! ## Places of letters -/

section

variable [DecidableEq α]

theorem of_cons (y x : α) (js : List Nat) (places : Places α) :
    Places.of ((y, js) :: places) x = if y = x then js else places.of x := by
  by_cases hy : y = x
  · rw [Places.of, hy, List.lookup_cons_self, if_pos rfl]
    rfl
  · have hbeq : (x == y) = false := beq_false_of_ne (Ne.symm hy)
    rw [Places.of, List.lookup_cons, hbeq, if_neg hy]
    rfl

theorem of_add (places : Places α) (x y : α) (j : Nat) :
    (places.add y j).of x = places.of x ++ if y = x then [j] else [] := by
  induction places with
  | nil => rw [Places.add, of_cons]; rfl
  | cons entry places ih =>
    obtain ⟨z, js⟩ := entry
    rw [Places.add, of_cons]
    by_cases hz : z = y
    · rw [if_pos hz, of_cons, hz]
      split
      · rfl
      · rw [List.append_nil]
    · rw [if_neg hz, of_cons, ih]
      by_cases hx : z = x
      · rw [if_pos hx, if_pos hx, if_neg fun hy => hz (hx.trans hy.symm), List.append_nil]
      · rw [if_neg hx, if_neg hx]

/-- The places of a letter are noted in ascending order. The fold adds them one by one, and the
place of each letter is its number in the list. -/
theorem of_placesOf (b : List α) (x : α) : (placesOf b).of x = b.idxsOf x := by
  have hfold : ∀ (b : List α) (j : Nat) (places : Places α),
      ((b.zipIdx j).foldl (fun places entry => places.add entry.1 entry.2) places).of x
        = places.of x ++ b.idxsOf x j := by
    intro b
    induction b with
    | nil => simp [List.idxsOf]
    | cons y b ih =>
      intro j places
      rw [List.zipIdx_cons, List.foldl_cons, ih, of_add, List.append_assoc]
      by_cases hy : y = x <;> simp [List.idxsOf, hy]
  exact hfold b 0 []

/-! ## Runs -/

/-- The size of the longest block of the window that ends just before two places. -/
def runTo (a b : List α) (w : Window) : Nat → Nat → Nat
  | i + 1, j + 1 =>
    if w.leftFrom ≤ i ∧ w.rightFrom ≤ j ∧ a[i]? = b[j]? then runTo a b w i j + 1 else 0
  | _, _ => 0

variable {a b : List α} {w : Window} {i j : Nat}

theorem runTo_zero_right (i : Nat) : runTo a b w i 0 = 0 := by
  cases i <;> rfl

theorem runTo_leftFrom (j : Nat) : runTo a b w w.leftFrom j = 0 := by
  cases hi : w.leftFrom with
  | zero => cases j <;> rfl
  | succ i =>
    cases j with
    | zero => rfl
    | succ j => rw [runTo, if_neg]; omega

/-- A common block is no longer than the run that ends where it ends. The induction takes
letters off the end of the block, and the run loses one with each of them. -/
theorem Common.size_le_runTo {m : Block} (h : Common a b w m) :
    m.size ≤ runTo a b w (m.left + m.size) (m.right + m.size) := by
  obtain ⟨i, j, n⟩ := m
  induction n with
  | zero => exact Nat.zero_le _
  | succ n ih =>
    have hleft : w.leftFrom ≤ i := h.leftFrom_le
    have hright : w.rightFrom ≤ j := h.rightFrom_le
    have hfront : Common a b w ⟨i, j, n⟩ :=
      ⟨hleft, Nat.le_of_succ_le h.left_le, hright, Nat.le_of_succ_le h.right_le,
        fun k hk => h.agree k (Nat.lt_succ_of_lt hk)⟩
    have hlast : a[i + n]? = b[j + n]? := h.agree n (Nat.lt_succ_self n)
    show n + 1 ≤ runTo a b w (i + n + 1) (j + n + 1)
    rw [runTo, if_pos ⟨by omega, by omega, hlast⟩]
    exact Nat.succ_le_succ (ih hfront)

/-- The run that ends at two places of the window is a common block. The induction is that of
the run: one letter more extends the block that ends one place earlier. -/
theorem common_runTo (hi : w.leftFrom ≤ i) (hi' : i ≤ w.leftTo) (hj : w.rightFrom ≤ j)
    (hj' : j ≤ w.rightTo) : ∃ m, Common a b w m ∧ m.size = runTo a b w i j
      ∧ m.left + m.size = i ∧ m.right + m.size = j := by
  fun_induction runTo a b w i j with
  | case1 i j hcond ih =>
    obtain ⟨hleft, hright, hsame⟩ := hcond
    obtain ⟨m, hm, hsize, hendl, hendr⟩ := ih hleft (by omega) hright (by omega)
    refine ⟨⟨m.left, m.right, m.size + 1⟩, ⟨hm.leftFrom_le, ?_, hm.rightFrom_le, ?_, ?_⟩, ?_, ?_, ?_⟩
    · show m.left + (m.size + 1) ≤ w.leftTo
      omega
    · show m.right + (m.size + 1) ≤ w.rightTo
      omega
    · -- the letters of the run before agree, and so does the one that is added
      intro k hk
      rcases Nat.lt_succ_iff_lt_or_eq.mp hk with hk | rfl
      · exact hm.agree k hk
      · show a[m.left + m.size]? = b[m.right + m.size]?
        rw [hendl, hendr, hsame]
    · exact congrArg Nat.succ hsize
    · exact congrArg Nat.succ hendl
    · exact congrArg Nat.succ hendr
  | case2 i j _ =>
    exact ⟨⟨i + 1, j + 1, 0⟩, ⟨hi, hi', hj, hj', fun k hk => absurd hk k.not_lt_zero⟩, rfl, rfl, rfl⟩
  | case3 i j _ =>
    exact ⟨⟨i, j, 0⟩, ⟨hi, hi', hj, hj', fun k hk => absurd hk k.not_lt_zero⟩, rfl, rfl, rfl⟩

theorem before_cons (j size k : Nat) (runs : Runs) :
    Runs.before ((j, size) :: runs) k = if k = j + 1 then size else runs.before k := by
  cases k with
  | zero => rfl
  | succ k =>
    rw [Runs.before, List.lookup_cons]
    by_cases hk : k = j
    · rw [hk, beq_self_eq_true, if_pos rfl]
      rfl
    · rw [beq_false_of_ne hk, if_neg (by omega)]
      rfl

/-! ## Letter by letter -/

/-- What is known before place `j` of row `i`: the runs that end in this row so far, and
the block that is meant among those that have been seen. -/
structure Row (a b : List α) (w : Window) (i j : Nat) (s : Scan) : Prop where
  runs : ∀ k ≤ w.rightTo, s.runs.before k = if k ≤ j then runTo a b w (i + 1) k else 0
  best : FirstLongest (Seen a b w i j) s.best

/-- No block that ends at the next place is longer than the best one. -/
theorem FirstLongest.keep_next {m : Block} (h : FirstLongest (Seen a b w i j) m)
    (hle : runTo a b w (i + 1) (j + 1) ≤ m.size) : FirstLongest (Seen a b w i (j + 1)) m := by
  refine h.keep (fun hends => ?_) fun m' hcommon hends hnot => ?_
  · simp only [Block.EndsBy] at hends ⊢
    omega
  · obtain ⟨hleft, hright⟩ := ends_of_not_endsBy hends hnot
    have hrun := hcommon.size_le_runTo
    rw [hleft, hright] at hrun
    exact Nat.le_trans hrun hle

/-- The run that ends at the next place is longer than the best block so far. Then it is the
first of the longest ones: what ended before is shorter, and of two runs that end at one place
there is one. -/
theorem FirstLongest.replace {m m' : Block} (h : FirstLongest (Seen a b w i j) m)
    (hm' : Common a b w m') (hleft : m'.left + m'.size = i + 1) (hright : m'.right + m'.size = j + 1)
    (hsize : m'.size = runTo a b w (i + 1) (j + 1)) (hlt : m.size < m'.size) :
    FirstLongest (Seen a b w i (j + 1)) m' := by
  -- what ends at this place is no longer than the run, and what ended before is shorter
  have hseen : ∀ c, Seen a b w i (j + 1) c → c.size < m'.size ∨ c.size ≤ m'.size
      ∧ c.left + c.size = i + 1 ∧ c.right + c.size = j + 1 := by
    rintro c ⟨hcommon, hends⟩
    by_cases hold : c.EndsBy i j
    · exact .inl (Nat.lt_of_le_of_lt (h.longest c ⟨hcommon, hold⟩) hlt)
    · obtain ⟨hendl, hendr⟩ := ends_of_not_endsBy hends hold
      have hrun := hcommon.size_le_runTo
      rw [hendl, hendr, ← hsize] at hrun
      exact .inr ⟨hrun, hendl, hendr⟩
  refine ⟨⟨hm', .inr ⟨hleft, Nat.le_of_eq hright⟩⟩, fun c hc => ?_, fun c hc htie => ?_⟩
  · rcases hseen c hc with hshort | ⟨hle, -⟩
    · exact Nat.le_of_lt hshort
    · exact hle
  · simp only [Block.StartsBy]
    rcases hseen c hc with hshort | ⟨-, hendl, hendr⟩ <;> omega

/-- Where no run ends, nothing changes from one place to the next. -/
theorem Row.skip {s : Scan} (h : Row a b w i j s) (hrun : runTo a b w (i + 1) (j + 1) = 0) :
    Row a b w i (j + 1) s := by
  refine ⟨fun k hk => ?_, h.best.keep_next (by omega)⟩
  rw [h.runs k hk]
  by_cases hlast : k = j + 1
  · rw [hlast, hrun, if_neg (by omega), if_pos (Nat.le_refl _)]
  · have hiff : k ≤ j ↔ k ≤ j + 1 := by omega
    simp only [hiff]

/-- Where the letters agree, the run grows by one, and the best block is replaced if the run is
longer. The run up to the places before was noted while the letter before was read. -/
theorem Row.visit {s : Scan} {previous : Runs} (h : Row a b w i j s) (hi : w.leftFrom ≤ i)
    (hi' : i < w.leftTo) (hj : w.rightFrom ≤ j) (hj' : j < w.rightTo) (hsame : a[i]? = b[j]?)
    (hprevious : previous.before j = runTo a b w i j) :
    Row a b w i (j + 1) (s.visit previous i j) := by
  have hrun : runTo a b w (i + 1) (j + 1) = previous.before j + 1 := by
    rw [runTo, if_pos ⟨hi, hj, hsame⟩, hprevious]
  constructor
  · intro k hk
    show Runs.before ((j, previous.before j + 1) :: s.runs) k = _
    rw [before_cons, h.runs k hk]
    -- the run that was put in front is the one at the new place
    by_cases hlast : k = j + 1
    · rw [if_pos hlast, hlast, if_pos (Nat.le_refl _), hrun]
    · have hiff : k ≤ j ↔ k ≤ j + 1 := by omega
      rw [if_neg hlast]
      simp only [hiff]
  · rw [Scan.visit]
    split
    · next hlonger =>
      -- the longer run is a block of the window, which is now the first longest
      obtain ⟨⟨left, right, size⟩, hm, hsize, hleft, hright⟩ := common_runTo (a := a) (b := b)
        (i := i + 1) (j := j + 1) (by omega) hi' (by omega) hj'
      have hblock : (⟨i + 1 - (previous.before j + 1), j + 1 - (previous.before j + 1),
          previous.before j + 1⟩ : Block) = ⟨left, right, size⟩ := by
        simp only at hsize hleft hright
        simp only [Block.mk.injEq]
        omega
      have hlt : s.best.size < size := by
        simp only at hsize
        omega
      simp only [hblock]
      exact h.best.replace hm hleft hright hsize hlt
    · next hlonger => exact h.best.keep_next (by omega)

/-- A pass over the places of letter `i`. It goes along the letters of the second list, and at
each of them the place is visited or no run ends there; what is known of the row carries the
induction. -/
theorem Row.extend {x : α} {previous : Runs} (hw : w.Fits a b) (hi : w.leftFrom ≤ i)
    (hi' : i < w.leftTo) (hx : a[i]? = some x)
    (hprevious : ∀ k ≤ w.rightTo, previous.before k = runTo a b w i k) {rest : List α} {s : Scan}
    (hrest : b.drop j = rest) (hj : j ≤ w.rightTo) (h : Row a b w i j s) :
    Row a b w i w.rightTo (s.extend w previous i (rest.idxsOf x j)) := by
  -- along the letters of the second list: a place is visited, or no run ends there
  induction rest generalizing j s with
  | nil =>
    have hend : b.length ≤ j := List.drop_eq_nil_iff.mp hrest
    have hlast : j = w.rightTo := Nat.le_antisymm hj (Nat.le_trans hw.rightTo_le hend)
    rwa [hlast] at h
  | cons y rest ih =>
    rcases Nat.eq_or_lt_of_le hj with hlast | hlt
    · have hbehind : ∀ k ∈ (y :: rest).idxsOf x j, w.rightTo ≤ k :=
        fun k hk => hlast ▸ List.ge_of_mem_findIdxs k hk
      rw [extend_behind hw.rightFrom_le hbehind]
      rwa [hlast] at h
    · have hy : b[j]? = some y := by
        rw [← List.head?_drop, hrest]
        rfl
      have hrest' : b.drop (j + 1) = rest := by
        rw [← List.tail_drop, hrest]
        rfl
      by_cases hyx : y = x
      · have hplaces : (y :: rest).idxsOf x j = j :: rest.idxsOf x (j + 1) := by
          simp [List.idxsOf, hyx]
        have hsame : a[i]? = b[j]? := by rw [hx, hy, hyx]
        rw [hplaces, Scan.extend]
        by_cases hfront : j < w.rightFrom
        · have hrun : runTo a b w (i + 1) (j + 1) = 0 := by
            rw [runTo, if_neg]
            omega
          rw [if_pos hfront]
          exact ih hrest' hlt (h.skip hrun)
        · rw [if_neg hfront, if_neg (by omega)]
          exact ih hrest' hlt (h.visit hi hi' (by omega) hlt hsame (hprevious j hj))
      · have hplaces : (y :: rest).idxsOf x j = rest.idxsOf x (j + 1) := by
          simp [List.idxsOf, hyx]
        have hrun : runTo a b w (i + 1) (j + 1) = 0 := by
          rw [runTo, if_neg]
          rintro ⟨-, -, hsame⟩
          rw [hx, hy, Option.some.injEq] at hsame
          exact hyx hsame.symm
        rw [hplaces]
        exact ih hrest' hlt (h.skip hrun)

/-- What is known when the letters before `i` have been read. -/
structure Read (a b : List α) (w : Window) (i : Nat) (s : Scan) : Prop where
  runs : ∀ k ≤ w.rightTo, s.runs.before k = runTo a b w i k
  best : FirstLongest (Seen a b w i 0) s.best

/-- Before the first letter no run has begun, and the empty block at the start of the window is
the first of the longest ones. -/
theorem read_start (hw : w.Fits a b) : Read a b w w.leftFrom (.start w) := by
  refine ⟨fun k _ => ?_, ⟨?_, .inl (Nat.le_refl _)⟩, ?_, ?_⟩
  · rw [runTo_leftFrom]
    cases k <;> rfl
  · exact ⟨Nat.le_refl _, hw.leftFrom_le, Nat.le_refl _, hw.rightFrom_le,
      fun k hk => absurd hk k.not_lt_zero⟩
  · rintro m ⟨hcommon, hends⟩
    have hleft := hcommon.leftFrom_le
    simp only [Block.EndsBy] at hends
    show m.size ≤ 0
    omega
  · rintro m ⟨hcommon, -⟩ -
    rcases Nat.eq_or_lt_of_le hcommon.leftFrom_le with heq | hlt
    · exact .inr ⟨heq, hcommon.rightFrom_le⟩
    · exact .inl hlt

/-- One more letter. The runs that end in its row are started from those of the row before, and
the row before is not needed any more. -/
theorem Read.next {x : α} {s : Scan} (h : Read a b w i s) (hw : w.Fits a b)
    (hi : w.leftFrom ≤ i) (hi' : i < w.leftTo) (hx : a[i]? = some x) :
    Read a b w (i + 1) (Scan.extend w s.runs i ((placesOf b).of x) ⟨[], s.best⟩) := by
  have hrow : Row a b w i 0 ⟨[], s.best⟩ := by
    refine ⟨fun k _ => ?_, h.best⟩
    cases k with
    | zero => rw [if_pos (Nat.le_refl _), runTo_zero_right]; rfl
    | succ k => rfl
  have hwhole : b.drop 0 = b := rfl
  have hend : Row a b w i w.rightTo (Scan.extend w s.runs i (b.idxsOf x) ⟨[], s.best⟩) :=
    hrow.extend hw hi hi' hx h.runs hwhole (Nat.zero_le _)
  rw [of_placesOf]
  refine ⟨fun k hk => ?_, hend.best.keep (fun hends => ?_) fun m hcommon hends hnot => ?_⟩
  · rw [hend.runs k hk, if_pos hk]
  · simp only [Block.EndsBy] at hends ⊢
    omega
  · -- what ends beyond the row has no letters
    have hright := hcommon.right_le
    simp only [Block.EndsBy] at hends hnot
    omega

/-- The letters of the window one after the other, up to the last one. -/
theorem Read.search (hw : w.Fits a b) {letters : List α} {s : Scan}
    (hletters : part i w.leftTo a = letters) (hi : w.leftFrom ≤ i) (hi' : i ≤ w.leftTo)
    (h : Read a b w i s) : Read a b w w.leftTo (s.search (placesOf b) w i letters) := by
  have hlength : (a.take w.leftTo).length = w.leftTo := by
    rw [List.length_take, Nat.min_eq_left hw.leftTo_le]
  induction letters generalizing i s with
  | nil =>
    have hend : (a.take w.leftTo).length ≤ i := List.drop_eq_nil_iff.mp hletters
    have hlast : i = w.leftTo := Nat.le_antisymm hi' (hlength ▸ hend)
    rwa [hlast] at h
  | cons x letters ih =>
    have hx : (a.take w.leftTo)[i]? = some x := by
      rw [← List.head?_drop, ← part, hletters]
      rfl
    have hlt : i < w.leftTo := by
      have hinside := (List.getElem?_eq_some_iff.mp hx).1
      rwa [hlength] at hinside
    have hletters' : part (i + 1) w.leftTo a = letters := by
      rw [part, ← List.tail_drop, ← part, hletters]
      rfl
    rw [List.getElem?_take_of_lt hlt] at hx
    exact ih hletters' (Nat.le_succ_of_le hi) hlt (h.next hw hi hlt hx)

/-- The search finds the longest common block of the window, of equally long ones the one that
starts first in the first list, then in the second. When all letters have been read, every
block of the window has been seen. -/
theorem firstLongest_longestIn (hw : w.Fits a b) :
    FirstLongest (Common a b w) (longestIn a (placesOf b) w) := by
  have hread : Read a b w w.leftTo _ :=
    Read.search hw rfl (Nat.le_refl _) hw.leftFrom_le (read_start hw)
  have hseen : ∀ m, Common a b w m → Seen a b w w.leftTo 0 m :=
    fun m hm => ⟨hm, .inl hm.left_le⟩
  exact ⟨hread.best.mem.1, fun m hm => hread.best.longest m (hseen m hm),
    fun m hm => hread.best.first m (hseen m hm)⟩

end

/-! ## Blocks as parts -/

theorem getElem?_part {lo hi i : Nat} (l : List α) (h : lo + i < hi) :
    (part lo hi l)[i]? = l[lo + i]? := by
  rw [part, List.getElem?_drop, List.getElem?_take_of_lt h]

theorem mem_part_iff {lo hi : Nat} {l : List α} {x : α} :
    x ∈ part lo hi l ↔ ∃ i, lo ≤ i ∧ i < hi ∧ l[i]? = some x := by
  rw [List.mem_iff_getElem?]
  constructor
  · rintro ⟨i, hi'⟩
    have hlength := (List.getElem?_eq_some_iff.mp hi').1
    rw [length_part] at hlength
    have hinside : lo + i < hi := by omega
    exact ⟨lo + i, Nat.le_add_right lo i, hinside, (getElem?_part l hinside).symm.trans hi'⟩
  · rintro ⟨i, hlo, hhi, hx⟩
    have hplace : lo + (i - lo) = i := Nat.add_sub_cancel' hlo
    refine ⟨i - lo, ?_⟩
    rw [getElem?_part l (by omega), hplace, hx]

/-- Parts of one length are equal if they agree place by place. Behind their ends neither has a
letter. -/
theorem part_eq_part_iff {i j n : Nat} {a b : List α} :
    part i (i + n) a = part j (j + n) b ↔ ∀ k < n, a[i + k]? = b[j + k]? := by
  constructor
  · intro heq k hk
    rw [← getElem?_part a (Nat.add_lt_add_left hk i), ← getElem?_part b (Nat.add_lt_add_left hk j),
      heq]
  · intro hagree
    refine List.ext_getElem? fun k => ?_
    by_cases hk : k < n
    · rw [getElem?_part a (Nat.add_lt_add_left hk i), getElem?_part b (Nat.add_lt_add_left hk j),
        hagree k hk]
    · rw [List.getElem?_eq_none, List.getElem?_eq_none]
      all_goals
        rw [length_part]
        omega

/-- The block lies in the window, and the lists have the same part there. -/
structure SharedPart (a b : List α) (w : Window) (m : Block) : Prop where
  leftFrom_le : w.leftFrom ≤ m.left
  left_le : m.left + m.size ≤ w.leftTo
  rightFrom_le : w.rightFrom ≤ m.right
  right_le : m.right + m.size ≤ w.rightTo
  part_eq : part m.left (m.left + m.size) a = part m.right (m.right + m.size) b

section

variable {a b : List α} {w : Window} {m : Block}

theorem common_iff_sharedPart : Common a b w m ↔ SharedPart a b w m :=
  ⟨fun h => ⟨h.leftFrom_le, h.left_le, h.rightFrom_le, h.right_le, part_eq_part_iff.mpr h.agree⟩,
    fun h => ⟨h.leftFrom_le, h.left_le, h.rightFrom_le, h.right_le, part_eq_part_iff.mp h.part_eq⟩⟩

/-- The parts that the window shows share no letter. -/
def Window.Apart (w : Window) (a b : List α) : Prop :=
  ∀ x ∈ part w.leftFrom w.leftTo a, x ∉ part w.rightFrom w.rightTo b

/-- The letters of a common block are shared. -/
theorem Common.size_eq_zero (h : Common a b w m) (hw : w.Fits a b) (hapart : w.Apart a b) :
    m.size = 0 := by
  by_contra hsize
  have hpos : 0 < m.size := Nat.pos_of_ne_zero hsize
  have hleft := h.left_le
  have hright := h.right_le
  have hinside : m.left < a.length := by
    have hfits := hw.leftTo_le
    omega
  have hx : a[m.left]? = some a[m.left] := List.getElem?_eq_getElem hinside
  have hsame : a[m.left + 0]? = b[m.right + 0]? := h.agree 0 hpos
  exact hapart a[m.left] (mem_part_iff.mpr ⟨m.left, h.leftFrom_le, by omega, hx⟩)
    (mem_part_iff.mpr ⟨m.right, h.rightFrom_le, by omega, hsame.symm.trans hx⟩)

/-- A letter that is shared is a common block. -/
theorem exists_common_of_shared {x : α} (ha : x ∈ part w.leftFrom w.leftTo a)
    (hb : x ∈ part w.rightFrom w.rightTo b) : ∃ m, Common a b w m ∧ m.size = 1 := by
  obtain ⟨i, hi, hi', hai⟩ := mem_part_iff.mp ha
  obtain ⟨j, hj, hj', hbj⟩ := mem_part_iff.mp hb
  refine ⟨⟨i, j, 1⟩, ⟨hi, hi', hj, hj', fun k hk => ?_⟩, rfl⟩
  rw [Nat.lt_one_iff.mp hk]
  exact hai.trans hbj.symm

/-- The longest common block is empty if and only if no letter is shared. -/
theorem FirstLongest.size_eq_zero_iff (h : FirstLongest (Common a b w) m) (hw : w.Fits a b) :
    m.size = 0 ↔ w.Apart a b := by
  constructor
  · intro hsize x ha hb
    obtain ⟨m', hm', hone⟩ := exists_common_of_shared ha hb
    have hle := h.longest m' hm'
    omega
  · exact h.mem.size_eq_zero hw

/-- An empty block stands at the start of the window. -/
theorem FirstLongest.eq_start (h : FirstLongest (Common a b w) m) (hw : w.Fits a b)
    (hsize : m.size = 0) : m = ⟨w.leftFrom, w.rightFrom, 0⟩ := by
  have hstart : Common a b w ⟨w.leftFrom, w.rightFrom, 0⟩ :=
    ⟨Nat.le_refl _, hw.leftFrom_le, Nat.le_refl _, hw.rightFrom_le,
      fun k hk => absurd hk k.not_lt_zero⟩
  have hfirst := h.first _ hstart hsize.symm
  have hleft := h.mem.leftFrom_le
  have hright := h.mem.rightFrom_le
  obtain ⟨left, right, size⟩ := m
  simp only [Block.StartsBy] at hfirst hleft hright hsize
  simp only [Block.mk.injEq]
  omega

end

section

variable [DecidableEq α]

/-- The search in a window that lies in the lists finds the longest part that both lists have
there, of equally long ones the one that starts first in the first list, then in the second. An
empty block is found, at the start of the window, if and only if no letter is shared. -/
theorem longestIn_firstSharedPart {a b : List α} {w : Window} (hw : w.Fits a b) :
    FirstLongest (SharedPart a b w) (longestIn a (placesOf b) w)
      ∧ ((longestIn a (placesOf b) w).size = 0 ↔ w.Apart a b)
      ∧ (longestIn a (placesOf b) w = ⟨w.leftFrom, w.rightFrom, 0⟩ ↔ w.Apart a b) := by
  have hfound : FirstLongest (Common a b w) (longestIn a (placesOf b) w) :=
    firstLongest_longestIn hw
  have hempty := hfound.size_eq_zero_iff hw
  refine ⟨?_, hempty, fun heq => hempty.mp (congrArg Block.size heq),
    fun hapart => hfound.eq_start hw (hempty.mpr hapart)⟩
  exact ⟨common_iff_sharedPart.mp hfound.mem,
    fun m hm => hfound.longest m (common_iff_sharedPart.mpr hm),
    fun m hm => hfound.first m (common_iff_sharedPart.mpr hm)⟩

/-- Between `anan` and `nanas` stand `ana` and `nan`, and `ana` starts first. -/
theorem longestIn_firstSharedPart_banana :
    (Window.mk 1 5 0 5).Fits ("banana" : Text) ("nanas" : Text)
      ∧ longestIn ("banana" : Text) (placesOf ("nanas" : Text)) ⟨1, 5, 0, 5⟩ = ⟨1, 1, 3⟩
      ∧ ∀ m, SharedPart ("banana" : Text) ("nanas" : Text) ⟨1, 5, 0, 5⟩ m → m.size ≤ 3 := by
  have hfits : (Window.mk 1 5 0 5).Fits ("banana" : Text) ("nanas" : Text) :=
    ⟨by decide, by decide, by decide, by decide⟩
  have hfound : longestIn ("banana" : Text) (placesOf ("nanas" : Text)) ⟨1, 5, 0, 5⟩
      = ⟨1, 1, 3⟩ := by decide
  obtain ⟨hfirst, -, -⟩ := longestIn_firstSharedPart hfits
  rw [hfound] at hfirst
  exact ⟨hfits, hfound, hfirst.longest⟩

end

end MetadataBlock.Similarity
