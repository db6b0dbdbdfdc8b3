import Mathlib.Data.List.Induction
import Mathlib.Order.Bounds.Basic
import MetadataBlock.Proofs.Alignment

/-!
# The edit distance is the least number of edits

Every entry of the table is the least cost of aligning what has been read of two lists, so
that its last entry is the least number of edits that turn one list into the other. The
letter that was read last comes first: an alignment reads the lists from the right.

- `costs`: what the alignments of two lists cost;
- `lastPlace_eq_zero_or`, `exists_lastPlace`: where a letter was read last;
- `Filled`, `FilledRow`: what the table and its row hold while they are filled;
- `aligned_crossing`, `crossing_le`: a crossing with the last partners is an alignment, and
  no crossing with other partners costs less;
- `FilledRow.extend`, `Filled.add`: one more entry, and one more row;
- `isLeast_distance`: the distance is the least number of edits.
-/

namespace MetadataBlock.EditDistance

variable {α : Type}

/-- The costs of the alignments of two lists. -/
def costs (a b : List α) : Set Nat :=
  {n | Aligned none n a b}

namespace Aligned

variable {waiting : Option (α × α)} {n m : Nat} {a b : List α}

theorem deleteAll (h : Aligned waiting n a b) : ∀ u : List α,
    Aligned waiting (n + u.length) (u ++ a) b
  | [] => h
  | x :: u => .delete x (h.deleteAll u)

theorem insertAll (h : Aligned waiting n a b) : ∀ v : List α,
    Aligned waiting (n + v.length) a (v ++ b)
  | [] => h
  | y :: v => .insert y (h.insertAll v)

/-- Everything can be deleted and inserted. So a bound of both lengths together admits every
two lists, and the sentinel is such a bound. -/
theorem ofLength (hn : a.length + b.length ≤ n) : Aligned none n a b := by
  have h := ((nil 0).insertAll b).deleteAll a
  rw [List.append_nil, List.append_nil] at h
  exact h.mono (by omega)

theorem min (hn : Aligned none n a b) (hm : Aligned none m a b) :
    Aligned none (min n m) a b := by
  rcases Nat.le_total n m with h | h
  · rwa [Nat.min_eq_left h]
  · rwa [Nat.min_eq_right h]

/-- A swap that is open is closed somewhere, behind letters that are deleted and inserted. The
induction follows the alignment to that place; nothing else can happen on the way. -/
theorem exists_closing {x y : α} (h : Aligned (some (x, y)) n a b) :
    ∃ u v a' b' m, a = u ++ y :: a' ∧ b = v ++ x :: b' ∧ Aligned none m a' b'
      ∧ m + u.length + v.length = n := by
  generalize hw : some (x, y) = waiting at h
  induction h with
  | nil | keep | replace | cross => cases hw
  | delete z _ ih =>
    obtain ⟨u, v, a', b', m, rfl, rfl, h, rfl⟩ := ih hw
    exact ⟨z :: u, v, a', b', m, rfl, rfl, h, by rw [List.length_cons]; omega⟩
  | insert z _ ih =>
    obtain ⟨u, v, a', b', m, rfl, rfl, h, rfl⟩ := ih hw
    exact ⟨u, z :: v, a', b', m, rfl, rfl, h, by rw [List.length_cons]; omega⟩
  | uncross x y h =>
    cases hw
    exact ⟨[], [], _, _, _, rfl, rfl, h, rfl⟩

end Aligned

/-! ## The edges of the table -/

/-- An alignment of the empty list inserts every letter of the other one, and it can do nothing
else with them. -/
theorem isLeast_nil_left (b : List α) : IsLeast (costs [] b) b.length := by
  constructor
  · exact .ofLength (by rw [List.length_nil, Nat.zero_add])
  · intro n h
    induction b generalizing n with
    | nil => exact Nat.zero_le n
    | cons y b ih =>
      cases h with
      | insert _ h => exact Nat.succ_le_succ (ih h)

theorem isLeast_nil_right (a : List α) : IsLeast (costs a []) a.length := by
  obtain ⟨hmem, hle⟩ := isLeast_nil_left a
  exact ⟨Aligned.flip hmem, fun n h => hle h.flip⟩

/-! ## Entries that are there stay -/

theorem getD_push (row : Row) (value i sentinel : Nat) :
    (row.push value).getD i sentinel = if i = row.size then value else row.getD i sentinel := by
  rw [Array.getD_eq_getD_getElem?, Array.getElem?_push, Array.getD_eq_getD_getElem?]
  split <;> rfl

variable [DecidableEq α]

theorem Table.entry_add (b : List α) (t : Table α) (x : α) (i j : Nat) :
    (t.add b x).entry i j
      = if i = t.rows.size then (t.row b x).entries.getD j t.sentinel else t.entry i j := by
  simp only [Table.entry, Table.add, Array.getD_eq_getD_getElem?, Array.getElem?_push]
  split <;> rfl

/-! ## Where a letter was read last -/

omit [DecidableEq α] in
theorem suffix_behind {y : α} {a u rest : List α} (h : a = u ++ y :: rest) : rest <:+ a :=
  h ▸ List.suffix_append_of_suffix (List.suffix_cons y rest)

/-- The place of the letter among those that have been read, the latest first: zero if it has
not been read. -/
def lastPlace (y : α) : List α → Nat
  | [] => 0
  | x :: a => if y = x then a.length + 1 else lastPlace y a

/-- A letter that was read stands at its last place, behind letters that were read later. -/
theorem lastPlace_eq_zero_or (y : α) (a : List α) :
    lastPlace y a = 0 ∨ ∃ u a', a = u ++ y :: a' ∧ lastPlace y a = a'.length + 1 := by
  induction a with
  | nil => exact .inl rfl
  | cons x a ih =>
    by_cases hx : y = x
    · exact .inr ⟨[], a, by rw [hx, List.nil_append], if_pos hx⟩
    · rw [lastPlace, if_neg hx]
      exact ih.imp_right fun ⟨u, a', ha, hplace⟩ => ⟨x :: u, a', congrArg _ ha, hplace⟩

/-- The last place of a letter is no earlier than any other. What stands between the two
places, with one of the two letters, is as long as the difference of the rests. -/
theorem exists_lastPlace (u a : List α) (y : α) :
    ∃ u' w, u ++ y :: a = u' ++ y :: (w ++ a) ∧ u'.length + w.length = u.length
      ∧ lastPlace y (u ++ y :: a) = (w ++ a).length + 1 := by
  induction u with
  | nil => exact ⟨[], [], rfl, rfl, if_pos rfl⟩
  | cons z u ih =>
    by_cases hz : y = z
    · exact ⟨[], u ++ [y], by simp [hz], by simp, by simp [lastPlace, hz]⟩
    · obtain ⟨u', w, heq, hlength, hplace⟩ := ih
      refine ⟨z :: u', w, congrArg _ heq, ?_, ?_⟩
      · rw [List.length_cons, List.length_cons]
        omega
      · rw [List.cons_append, lastPlace, if_neg hz, hplace]

/-! ## The table while it is filled -/

/-- What the table holds after `a` has been read of the first list, where `b` is the second
from its end: sentinels in front, the least costs of aligning any beginnings, and the last row
of every letter. -/
structure Filled (b a : List α) (t : Table α) : Prop where
  size : t.rows.size = a.length + 2
  top : ∀ j, t.entry 0 j = t.sentinel
  left : ∀ i, t.entry i 0 = t.sentinel
  least : ∀ u v, u <:+ a → v <:+ b →
    IsLeast (costs u v) (t.entry (u.length + 1) (v.length + 1))
  lastRow : ∀ y, (t.lastRow.lookup y).getD 0 = lastPlace y a

/-- What the row of `x` holds, after `as` has been read of the first list and `bs` of the
second. -/
structure FilledRow (sentinel : Nat) (x : α) (as bs : List α) (f : Filling) : Prop where
  size : f.entries.size = bs.length + 2
  left : f.entries.getD 0 sentinel = sentinel
  least : ∀ v, v <:+ bs → IsLeast (costs (x :: as) v) (f.entries.getD (v.length + 1) sentinel)
  lastMatch : f.lastMatch = lastPlace x bs

section

variable {x y : α} {as bs b : List α} {t : Table α} {f : Filling}

/-- A crossing with the last partners is an alignment: the swap is made, what stands between
the partners is deleted and inserted, and the rests are aligned as the table says. Without a
partner it costs no less than to delete and insert everything, which is what the sentinel is
for. -/
theorem aligned_crossing (h : Filled b as t) (hbs : bs <:+ b)
    (hsentinel : (x :: as).length + (y :: bs).length ≤ t.sentinel) :
    Aligned none
      (t.crossing (as.length + 1) (bs.length + 1) (lastPlace y as) (lastPlace x bs))
      (x :: as) (y :: bs) := by
  rw [Table.crossing]
  rcases lastPlace_eq_zero_or y as with hy | ⟨u, a', has, hy⟩
  · rw [hy, h.top]
    exact .ofLength (by omega)
  rcases lastPlace_eq_zero_or x bs with hx | ⟨v, b', hbs', hx⟩
  · rw [hx, h.left]
    exact .ofLength (by omega)
  have hrest := h.least a' b' (suffix_behind has) ((suffix_behind hbs').trans hbs)
  -- delete what stands between in one list, insert what stands between in the other
  have haligned := (((hrest.1.uncross x y).deleteAll u).insertAll v).cross x y
  rw [← has, ← hbs'] at haligned
  have hu : as.length = u.length + (a'.length + 1) := by rw [has, List.length_append]; rfl
  have hv : bs.length = v.length + (b'.length + 1) := by rw [hbs', List.length_append]; rfl
  rw [hy, hx]
  exact haligned.mono (by omega)

/-- No crossing costs less than the one with the last partners: what stands between a nearer
partner and one further on can be deleted and inserted behind the swap as well, at the price of
the letters that the swap saves. -/
theorem crossing_le (h : Filled b as t) (hbs : bs <:+ b) {n : Nat}
    (hn : Aligned (some (x, y)) n as bs) :
    t.crossing (as.length + 1) (bs.length + 1) (lastPlace y as) (lastPlace x bs) ≤ n + 1 := by
  obtain ⟨u, v, a', b', m, rfl, rfl, hm, rfl⟩ := hn.exists_closing
  obtain ⟨u', w, ha, hu, hy⟩ := exists_lastPlace u a' y
  obtain ⟨v', w', hb, hv, hx⟩ := exists_lastPlace v b' x
  have hrest := h.least (w ++ a') (w' ++ b') (suffix_behind ha) ((suffix_behind hb).trans hbs)
  have hle := hrest.2 ((hm.deleteAll w).insertAll w')
  rw [Table.crossing, hy, hx, ha, hb]
  simp only [List.length_append, List.length_cons] at hle ⊢
  omega

/-- **An entry is the least cost if the entries before it are.** Each of the four candidates is
an alignment. In the other direction an alignment is taken apart at the letters in front: it
keeps or replaces them, deletes the one or inserts the other, or opens a swap, and what follows
costs no less than an entry before. -/
theorem isLeast_entry (h : Filled b as t) (hbs : bs <:+ b)
    (hsentinel : (x :: as).length + (y :: bs).length ≤ t.sentinel)
    {replaced inserted deleted crossed : Nat}
    (hr : IsLeast (costs as bs) replaced) (hi : IsLeast (costs (x :: as) bs) inserted)
    (hd : IsLeast (costs as (y :: bs)) deleted)
    (hc : crossed
      = t.crossing (as.length + 1) (bs.length + 1) (lastPlace y as) (lastPlace x bs)) :
    IsLeast (costs (x :: as) (y :: bs))
      (min (replaced + if x = y then 0 else 1)
        (min (inserted + 1) (min (deleted + 1) crossed))) := by
  constructor
  · have hreplace : Aligned none (replaced + if x = y then 0 else 1) (x :: as) (y :: bs) := by
      split
      · next heq => exact heq ▸ .keep x hr.1
      · exact .replace x y hr.1
    have hcross := hc ▸ aligned_crossing h hbs hsentinel
    exact hreplace.min ((hi.1.insert y).min ((hd.1.delete x).min hcross))
  · intro n hn
    -- on what becomes of the first letters
    cases hn with
    | keep _ hn =>
      rw [if_pos rfl]
      exact Nat.le_trans (Nat.min_le_left _ _) (hr.2 hn)
    | replace _ _ hn =>
      have hone : (if x = y then 0 else 1) ≤ 1 := by split <;> decide
      exact Nat.le_trans (Nat.min_le_left _ _) (Nat.add_le_add (hr.2 hn) hone)
    | delete _ hn =>
      have hle := hd.2 hn
      omega
    | insert _ hn =>
      have hle := hi.2 hn
      omega
    | cross _ _ hn =>
      have hle := hc ▸ crossing_le h hbs hn
      omega

/-- One more entry. The entries that the new one is computed from have been filled in before:
one in this row, two in the row before, and the one behind the last partners further up. -/
theorem FilledRow.extend (h : Filled b as t) (hbs : (y :: bs) <:+ b)
    (hsentinel : (x :: as).length + b.length ≤ t.sentinel)
    (hf : FilledRow t.sentinel x as bs f) :
    FilledRow t.sentinel x as (y :: bs) (f.extend t x y) := by
  have hi : t.rows.size - 1 = as.length + 1 := by rw [h.size]; rfl
  have hj : f.entries.size - 1 = bs.length + 1 := by rw [hf.size]; rfl
  have hbs' : bs <:+ b := (List.suffix_cons y bs).trans hbs
  have hlength := hbs.length_le
  have hentry := isLeast_entry h hbs' (y := y) (by omega)
    (h.least as bs List.suffix_rfl hbs') (hf.least bs List.suffix_rfl)
    (h.least as (y :: bs) List.suffix_rfl hbs) rfl
  exact {
    size := by rw [Filling.extend, Array.size_push, hf.size, List.length_cons]
    left := by
      rw [Filling.extend, getD_push, if_neg (by omega)]
      exact hf.left
    least := by
      intro v hv
      rw [Filling.extend, getD_push, hi, hj, h.lastRow, hf.lastMatch, hf.size]
      -- only the last entry is new
      rcases List.suffix_cons_iff.mp hv with rfl | hv
      · rw [List.length_cons, if_pos rfl]
        exact hentry
      · have hle := hv.length_le
        rw [if_neg (by omega)]
        exact hf.least v hv
    lastMatch := by rw [Filling.extend, hj, hf.lastMatch, lastPlace] }

/-- The row of one letter, entry by entry. The letters of the second list come in from its
front, so the invariant is about what has been read of it so far. -/
theorem filledRow_row (h : Filled b as t) (hsentinel : (x :: as).length + b.length ≤ t.sentinel)
    (read : List α) (hread : read.reverse <:+ b) :
    FilledRow t.sentinel x as read.reverse (t.row read x) := by
  induction read using List.reverseRecOn with
  | nil =>
    -- the sentinel, and the cost of deleting the letters of all rows so far
    have hfirst : (t.row [] x).entries = #[t.sentinel, (x :: as).length] := by
      rw [Table.row, List.foldl_nil, h.size]
      rfl
    exact {
      size := rfl
      left := rfl
      least := by
        intro v hv
        cases List.suffix_nil.mp hv
        rw [hfirst]
        exact isLeast_nil_right (x :: as)
      lastMatch := rfl }
  | append_singleton read y ih =>
    rw [List.reverse_append] at hread ⊢
    rw [Table.row, List.foldl_append]
    exact (ih ((List.suffix_cons y _).trans hread)).extend h hread hsentinel

end

/-! ## The rows -/

omit [DecidableEq α] in
/-- The first column holds the sentinel. -/
theorem entry_start_zero (sentinel width : Nat) :
    (Table.start sentinel width : Table α).entry 1 0 = sentinel := by
  show (#[sentinel] ++ Array.range (width + 1)).getD 0 sentinel = sentinel
  rw [Array.getD_eq_getD_getElem?, Array.getElem?_append_left Nat.zero_lt_one]
  rfl

omit [DecidableEq α] in
/-- The row before the first letter counts the insertions. -/
theorem entry_start_succ (sentinel : Nat) {width j : Nat} (h : j < width + 1) :
    (Table.start sentinel width : Table α).entry 1 (j + 1) = j := by
  show (#[sentinel] ++ Array.range (width + 1)).getD (j + 1) sentinel = j
  rw [Array.getD_eq_getD_getElem?, Array.getElem?_append_right (Nat.le_add_left 1 j)]
  show (Array.range (width + 1))[j]?.getD sentinel = j
  rw [Array.getElem?_eq_getElem (by rwa [Array.size_range]), Array.getElem_range]
  rfl

/-- The table before the first letter: the distance from the empty list is the length. -/
theorem filled_start (sentinel : Nat) (b : List α) :
    Filled b.reverse [] (Table.start sentinel b.length) where
  size := rfl
  top := fun j => by
    show (Array.replicate (b.length + 2) sentinel).getD j sentinel = sentinel
    rw [Array.getD_eq_getD_getElem?, Array.getElem?_replicate]
    split <;> rfl
  left := fun i => by
    match i with
    | 0 => simp [Table.entry, Table.start]
    | 1 => exact entry_start_zero sentinel b.length
    | i + 2 => simp [Table.entry, Table.start]
  least := fun u v hu hv => by
    cases List.suffix_nil.mp hu
    have hv : v.length < b.length + 1 := by
      have hle := hv.length_le
      rw [List.length_reverse] at hle
      omega
    rw [List.length_nil, entry_start_succ sentinel hv]
    exact isLeast_nil_left v
  lastRow := fun _ => rfl

/-- One more row. The rows before it stay as they are, and the place of the new letter is noted
as its last one. -/
theorem Filled.add {x : α} {as b : List α} {t : Table α} (h : Filled b.reverse as t)
    (hsentinel : (x :: as).length + b.length ≤ t.sentinel) :
    Filled b.reverse (x :: as) (t.add b x) := by
  have hrow := filledRow_row h (x := x) (by rwa [List.length_reverse]) b List.suffix_rfl
  exact {
    size := by rw [Table.add, Array.size_push, h.size, List.length_cons]
    top := by
      intro j
      rw [Table.entry_add, h.size, if_neg (by omega)]
      exact h.top j
    left := by
      intro i
      rw [Table.entry_add]
      split
      · exact hrow.left
      · exact h.left i
    least := by
      intro u v hu hv
      rw [Table.entry_add, h.size]
      -- only the last row is new
      rcases List.suffix_cons_iff.mp hu with rfl | hu
      · rw [List.length_cons, if_pos rfl]
        exact hrow.least v hv
      · have hle := hu.length_le
        rw [if_neg (by omega)]
        exact h.least u v hu hv
    lastRow := by
      intro y
      rw [Table.add, List.lookup_cons, lastPlace, h.size]
      by_cases hy : y = x
      · rw [if_pos hy, beq_iff_eq.mpr hy]
        rfl
      · rw [if_neg hy, beq_eq_false_iff_ne.mpr hy]
        exact h.lastRow y }

/-- The sentinel stays. -/
theorem sentinel_foldl (b : List α) (t : Table α) (read : List α) :
    (read.foldl (Table.add b) t).sentinel = t.sentinel := by
  induction read generalizing t with
  | nil => rfl
  | cons x read ih => exact ih (t.add b x)

/-- The table after some of the first list, row by row from the table before the first
letter. -/
theorem filled_foldl {sentinel : Nat} {b : List α} (read : List α)
    (hsentinel : read.length + b.length ≤ sentinel) :
    Filled b.reverse read.reverse
      (read.foldl (Table.add b) (Table.start sentinel b.length)) := by
  induction read using List.reverseRecOn with
  | nil => exact filled_start sentinel b
  | append_singleton read x ih =>
    rw [List.length_append, List.length_singleton] at hsentinel
    rw [List.foldl_append, List.reverse_append]
    refine (ih (by omega)).add ?_
    rw [sentinel_foldl, List.length_cons, List.length_reverse]
    exact hsentinel

/-! ## The distance -/

/-- The distance is the least cost of an alignment from the right: the last entry of the table,
when all rows are filled. -/
theorem isLeast_costs (a b : List α) : IsLeast (costs a.reverse b.reverse) (distance a b) := by
  have h := (filled_foldl a (Nat.le_refl _)).least a.reverse b.reverse List.suffix_rfl
    List.suffix_rfl
  rwa [List.length_reverse, List.length_reverse] at h

/-- So many edits as the distance suffice. The best alignment can be carried out with no more
edits than it costs, and edits with fewer would be aligned at a lower cost. -/
theorem edits_distance (a b : List α) : Edits (distance a b) a b := by
  obtain ⟨hmem, hle⟩ := isLeast_costs a b
  obtain ⟨n, hn, h⟩ := Aligned.editsWithin hmem
  have heq : n = distance a b := Nat.le_antisymm hn (hle h.aligned)
  have hedits := h.reverse
  rwa [List.reverse_reverse, List.reverse_reverse, heq] at hedits

/-- No distance is zero but that of a list from itself. -/
theorem distance_eq_zero_iff {a b : List α} : distance a b = 0 ↔ a = b := by
  constructor
  · intro h
    have hedits := edits_distance a b
    rw [h] at hedits
    cases hedits with
    | refl => rfl
  · rintro rfl
    exact Nat.le_zero.mp ((isLeast_costs a a).2 (.refl a.reverse))

/-- **The distance of two lists is the least number of edits that turn one into the other**,
where an edit inserts, deletes or replaces one letter or swaps two neighbours. -/
theorem isLeast_distance (a b : List α) : IsLeast {n | Edits n a b} (distance a b) :=
  ⟨edits_distance a b, fun _ h => (isLeast_costs a b).2 h.reverse.aligned⟩

end MetadataBlock.EditDistance
