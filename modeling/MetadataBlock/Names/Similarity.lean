import MetadataBlock.Number.Total

/-!
# Similarity

Two texts are compared by their common blocks: the longest common block is
matched first, then the parts to its left and to its right are compared in the
same way.

- `Block`, `Window`: a block that two lists have in common, and the part of each
  list that is searched for one;
- `placesOf`: where the letters of a list stand;
- `Scan`, `longestIn`: the search for the longest common block in a window, the earliest one
  among equals;
- `Comparison.round`, `Comparison.run`: the windows that wait, worked off one by one;
- `matched`: the total length of the matching blocks;
- `ratio`: twice that total over the combined length;
- `closest?`: the candidate with the greatest ratio.
-/

namespace MetadataBlock.Similarity

variable {α : Type}

/-- A block that two lists have in common: where it starts in each, and its length. -/
structure Block where
  left : Nat
  right : Nat
  size : Nat
  deriving DecidableEq, Repr

/-- A part of each of two lists: the places from `leftFrom` up to `leftTo` of the
first and from `rightFrom` up to `rightTo` of the second, the ends not included. -/
structure Window where
  leftFrom : Nat
  leftTo : Nat
  rightFrom : Nat
  rightTo : Nat
  deriving DecidableEq, Repr

/-- The letters of a list from one place up to another. -/
def part (lo hi : Nat) (l : List α) : List α :=
  (l.take hi).drop lo

theorem length_part (lo hi : Nat) (l : List α) : (part lo hi l).length = min hi l.length - lo := by
  rw [part, List.length_drop, List.length_take]

variable [DecidableEq α]

/-! ## Places of letters -/

/-- The places of letters in a list, letter by letter. -/
abbrev Places (α : Type) := List (α × List Nat)

/-- Note one more place of a letter. -/
def Places.add : Places α → α → Nat → Places α
  | [], x, j => [(x, [j])]
  | (y, js) :: places, x, j =>
    if y = x then (y, js ++ [j]) :: places else (y, js) :: Places.add places x j

/-- The places noted for a letter, in the order in which they were noted. -/
def Places.of (places : Places α) (x : α) : List Nat :=
  (places.lookup x).getD []

/-- The places of every letter of a list. -/
def placesOf (b : List α) : Places α :=
  b.zipIdx.foldl (fun places entry => places.add entry.1 entry.2) []

/-! ## The longest common block -/

/-- The lengths of the common runs that end at one letter of the first list, each
with the place of the second list where the run ends. -/
abbrev Runs := List (Nat × Nat)

/-- The length of the run that ends just before a place, 0 if none does. -/
def Runs.before (runs : Runs) : Nat → Nat
  | 0 => 0
  | j + 1 => (runs.lookup j).getD 0

/-- What a search has found so far: the runs that end at the letter being read, and the
longest block. -/
structure Scan where
  runs : Runs
  best : Block

/-- At place `j` of the second list stands letter `i` of the first. This extends the run
that ends just before, and only a longer run replaces the block. -/
def Scan.visit (previous : Runs) (i j : Nat) (s : Scan) : Scan :=
  let size := previous.before j + 1
  ⟨(j, size) :: s.runs, if s.best.size < size then ⟨i + 1 - size, j + 1 - size, size⟩ else s.best⟩

/-- Go through the places of letter `i`: those in front of the window are passed over, and
the first one behind it ends the pass. -/
def Scan.extend (w : Window) (previous : Runs) (i : Nat) : List Nat → Scan → Scan
  | [], s => s
  | j :: places, s =>
    if j < w.rightFrom then extend w previous i places s
    else if w.rightTo ≤ j then s
    else extend w previous i places (s.visit previous i j)

/-- Go through letters of the first list that stand from place `i` on. -/
def Scan.search (places : Places α) (w : Window) : Nat → List α → Scan → Scan
  | _, [], s => s
  | i, x :: letters, s =>
    search places w (i + 1) letters (Scan.extend w s.runs i (places.of x) ⟨[], s.best⟩)

/-- The search before the first letter. -/
def Scan.start (w : Window) : Scan :=
  ⟨[], ⟨w.leftFrom, w.rightFrom, 0⟩⟩

/-- The longest block that two lists have in common in a window; of equally long ones
the one that starts first in the first list, then in the second. A block of size 0 at
the start of the window if nothing is shared. The second list is known by its places. -/
def longestIn (a : List α) (places : Places α) (w : Window) : Block :=
  ((Scan.start w).search places w w.leftFrom (part w.leftFrom w.leftTo a)).best

/-! ## The block lies inside the window -/

/-- No run is longer than a bound. -/
def Runs.AtMost (runs : Runs) (n : Nat) : Prop :=
  ∀ run ∈ runs, run.2 ≤ n

/-- The block lies between two places of the first list. -/
def Block.Within (m : Block) (lo hi : Nat) : Prop :=
  lo ≤ m.left ∧ m.left + m.size ≤ hi

theorem Runs.AtMost.before_le {runs : Runs} {n : Nat} (h : runs.AtMost n) (j : Nat) :
    runs.before j ≤ n := by
  cases j with
  | zero => exact Nat.zero_le n
  | succ j =>
    rw [Runs.before]
    cases hj : runs.lookup j with
    | none => exact Nat.zero_le n
    | some size =>
      obtain ⟨front, rear, rfl, -⟩ := List.lookup_eq_some_iff.mp hj
      exact h (j, size) (by simp)

namespace Scan

theorem visit_within {i j n lo : Nat} {previous : Runs} {s : Scan} (hn : lo + n = i)
    (hprevious : previous.AtMost n) (hruns : s.runs.AtMost (n + 1))
    (hbest : s.best.Within lo (i + 1)) :
    (s.visit previous i j).runs.AtMost (n + 1) ∧ (s.visit previous i j).best.Within lo (i + 1) := by
  have hsize := hprevious.before_le j
  constructor
  · rintro run hrun
    rcases List.mem_cons.mp hrun with rfl | hrun
    · exact Nat.succ_le_succ hsize
    · exact hruns run hrun
  · rw [visit]
    simp only
    split
    · constructor <;> simp only <;> omega
    · exact hbest

/-- A pass over one letter makes runs longer by one at most, and it keeps the block inside
what has been read. -/
theorem extend_within {w : Window} {i n : Nat} {previous : Runs} (hn : w.leftFrom + n = i)
    (hprevious : previous.AtMost n) : ∀ (places : List Nat) (s : Scan),
      s.runs.AtMost (n + 1) → s.best.Within w.leftFrom (i + 1) →
        (s.extend w previous i places).runs.AtMost (n + 1) ∧
          (s.extend w previous i places).best.Within w.leftFrom (i + 1)
  | [], _, hruns, hbest => ⟨hruns, hbest⟩
  | j :: places, s, hruns, hbest => by
    rw [extend]
    split
    · exact extend_within hn hprevious places s hruns hbest
    · split
      · exact ⟨hruns, hbest⟩
      · obtain ⟨hruns', hbest'⟩ := visit_within (j := j) hn hprevious hruns hbest
        exact extend_within hn hprevious places _ hruns' hbest'

theorem search_within {places : Places α} {w : Window} :
    ∀ (letters : List α) (i n : Nat) (s : Scan), w.leftFrom + n = i →
      s.runs.AtMost n → s.best.Within w.leftFrom i →
        (s.search places w i letters).best.Within w.leftFrom (i + letters.length)
  | [], _, _, _, _, _, hbest => hbest
  | x :: letters, i, n, s, hn, hruns, hbest => by
    have hbest' : s.best.Within w.leftFrom (i + 1) := ⟨hbest.1, Nat.le_succ_of_le hbest.2⟩
    obtain ⟨hnext, hfound⟩ :=
      extend_within hn hruns (places.of x) ⟨[], s.best⟩ (fun _ h => nomatch h) hbest'
    rw [search, List.length_cons, Nat.add_comm letters.length, ← Nat.add_assoc]
    exact search_within letters (i + 1) (n + 1) _ (by omega) hnext hfound

end Scan

/-- A block that is not empty lies inside the window. -/
theorem longestIn_within {a : List α} {places : Places α} {w : Window}
    (h : (longestIn a places w).size ≠ 0) : (longestIn a places w).Within w.leftFrom w.leftTo := by
  have hwithin : (longestIn a places w).Within w.leftFrom _ :=
    Scan.search_within (part w.leftFrom w.leftTo a) w.leftFrom 0 (.start w) rfl
      (fun _ h => nomatch h) ⟨Nat.le_refl _, Nat.le_refl _⟩
  rw [length_part] at hwithin
  obtain ⟨hlo, hhi⟩ := hwithin
  exact ⟨hlo, by omega⟩

/-! ## Window by window -/

/-- The window, unless one of its sides is empty. -/
def Window.unlessEmpty (w : Window) : List Window :=
  if w.leftFrom < w.leftTo ∧ w.rightFrom < w.rightTo then [w] else []

/-- The part of a window in front of a block. -/
def Window.inFrontOf (w : Window) (m : Block) : Window :=
  ⟨w.leftFrom, m.left, w.rightFrom, m.right⟩

/-- The part of a window behind a block. -/
def Window.behind (w : Window) (m : Block) : Window :=
  ⟨m.left + m.size, w.leftTo, m.right + m.size, w.rightTo⟩

/-- The parts of a window that are left beside a block. The part behind it is the next to be
compared. -/
def Window.beside (w : Window) (m : Block) : List Window :=
  (w.behind m).unlessEmpty ++ (w.inFrontOf m).unlessEmpty

/-- How far a comparison has come: the windows that wait, the next one in front, and the
number of letters matched so far. -/
structure Comparison where
  waiting : List Window
  count : Nat

/-- One round: the next window is searched, and the parts beside the block that is found
wait in its place. -/
def Comparison.round (a : List α) (places : Places α) (c : Comparison) : Comparison :=
  match c.waiting with
  | [] => c
  | w :: rest =>
    let m := longestIn a places w
    if m.size = 0 then ⟨rest, c.count⟩
    else ⟨w.beside m ++ rest, c.count + m.size⟩

/-- The size of some windows. -/
def weight (windows : List Window) : Nat :=
  total (windows.map fun w => 2 * (w.leftTo - w.leftFrom) + 1)

theorem weight_append (ws vs : List Window) : weight (ws ++ vs) = weight ws + weight vs := by
  rw [weight, List.map_append, total_append]
  rfl

theorem weight_unlessEmpty_le (w : Window) :
    weight w.unlessEmpty ≤ 2 * (w.leftTo - w.leftFrom) + 1 := by
  rw [Window.unlessEmpty]
  split
  · exact Nat.le_refl _
  · exact Nat.zero_le _

/-- Cutting out a block that is not empty leaves less to do. -/
theorem weight_beside_lt {w : Window} {m : Block} (h : m.size ≠ 0)
    (hm : m.Within w.leftFrom w.leftTo) :
    weight (w.beside m) < 2 * (w.leftTo - w.leftFrom) + 1 := by
  have hbehind : weight (w.behind m).unlessEmpty ≤ 2 * (w.leftTo - (m.left + m.size)) + 1 :=
    weight_unlessEmpty_le _
  have hfront : weight (w.inFrontOf m).unlessEmpty ≤ 2 * (m.left - w.leftFrom) + 1 :=
    weight_unlessEmpty_le _
  obtain ⟨hlo, hhi⟩ := hm
  rw [Window.beside, weight_append]
  omega

/-- Every round leaves less to do. -/
theorem Comparison.weight_round_lt (a : List α) (places : Places α) {c : Comparison}
    (h : c.waiting ≠ []) : weight (c.round a places).waiting < weight c.waiting := by
  obtain ⟨_ | ⟨w, rest⟩, count⟩ := c
  · exact absurd rfl h
  · have hcons : weight (w :: rest) = 2 * (w.leftTo - w.leftFrom) + 1 + weight rest := rfl
    rw [round]
    by_cases hsize : (longestIn a places w).size = 0
    · simp only [hsize, if_pos, hcons]
      omega
    · have hbeside := weight_beside_lt hsize (longestIn_within hsize)
      simp only [hsize, if_false, weight_append, hcons]
      omega

/-- Round after round until no window waits: the number of letters matched. -/
def Comparison.run (a : List α) (places : Places α) (c : Comparison) : Nat :=
  if c.waiting = [] then c.count else (c.round a places).run a places
termination_by weight c.waiting
decreasing_by exact c.weight_round_lt a places (by assumption)

/-- Two lists as one window. -/
def Window.whole (a b : List α) : Window :=
  ⟨0, a.length, 0, b.length⟩

/-- The comparison of two whole lists. -/
def Comparison.start (a b : List α) : Comparison :=
  ⟨[.whole a b], 0⟩

/-- The total length of the matching blocks of two lists. -/
def matched (a b : List α) : Nat :=
  (Comparison.start a b).run a (placesOf b)

/-- Twice the matched length over the combined length; 1 for two empty lists. -/
def ratio (a b : List α) : Rat :=
  if a.length + b.length = 0 then 1
  else (2 * matched a b : Nat) / (a.length + b.length : Nat)

/-- The candidate with the greatest ratio, the first one among equals. -/
def closest? (value : List α) (candidates : List (List α)) : Option (List α × Rat) :=
  candidates.foldl (fun best candidate =>
    let r := ratio value candidate
    match best with
    | none => some (candidate, r)
    | some (_, s) => if s < r then some (candidate, r) else best) none

end MetadataBlock.Similarity
