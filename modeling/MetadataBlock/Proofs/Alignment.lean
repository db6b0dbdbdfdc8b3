import MetadataBlock.Names.EditDistance

/-!
# Edits and alignments

A sequence of edits may touch the same place again and again. Whatever it does, two lists
can be read side by side from the left at no greater cost: letters are kept, replaced,
deleted and inserted on the way, and at most one swap is open at a time.

- `Edit`, `Edits`: one edit, and several in a row;
- `Aligned`: two lists read side by side with at most so many edits;
- `Aligned.editsWithin`: an alignment can be carried out;
- `Aligned.of_edit`, `Edits.aligned`: an edit in front of an alignment costs at most one
  more, so that every sequence of edits has an alignment that costs no more.
-/

namespace MetadataBlock.EditDistance

variable {α : Type}

/-! ## Edits -/

/-- One edit: a letter is inserted, deleted or replaced, or two neighbours are swapped,
here or later in the list. -/
inductive Edit : List α → List α → Prop
  | insert (x : α) (a : List α) : Edit a (x :: a)
  | delete (x : α) (a : List α) : Edit (x :: a) a
  | replace (x y : α) (a : List α) : Edit (x :: a) (y :: a)
  | swap (x y : α) (a : List α) : Edit (x :: y :: a) (y :: x :: a)
  | later (x : α) {a b : List α} : Edit a b → Edit (x :: a) (x :: b)

namespace Edit

variable {a b : List α}

theorem append_left (e : Edit a b) : ∀ c : List α, Edit (c ++ a) (c ++ b)
  | [] => e
  | x :: c => .later x (e.append_left c)

theorem append_right (e : Edit a b) (c : List α) : Edit (a ++ c) (b ++ c) := by
  induction e with
  | insert x a => exact .insert x (a ++ c)
  | delete x a => exact .delete x (a ++ c)
  | replace x y a => exact .replace x y (a ++ c)
  | swap x y a => exact .swap x y (a ++ c)
  | later x _ ih => exact .later x ih

/-- An edit is an edit when the lists are read from the right: what it does at the front is
done behind what stood after it. -/
theorem reverse (e : Edit a b) : Edit a.reverse b.reverse := by
  induction e with
  | insert x a => simpa using (insert x []).append_left a.reverse
  | delete x a => simpa using (delete x []).append_left a.reverse
  | replace x y a => simpa using (replace x y []).append_left a.reverse
  | swap x y a => simpa using (swap y x []).append_left a.reverse
  | later x _ ih => simpa using ih.append_right [x]

end Edit

/-- So many edits in a row. -/
inductive Edits : Nat → List α → List α → Prop
  | refl (a : List α) : Edits 0 a a
  | step {n : Nat} {a b c : List α} : Edit a b → Edits n b c → Edits (n + 1) a c

theorem Edits.later {n : Nat} {a b : List α} (x : α) (h : Edits n a b) :
    Edits n (x :: a) (x :: b) := by
  induction h with
  | refl a => exact .refl (x :: a)
  | step e _ ih => exact .step (.later x e) ih

/-- One edit more at the end. Runs are built from the front, so the edit is carried to the end
through all of them. -/
theorem Edits.concat {n : Nat} {a b c : List α} (h : Edits n a b) (last : Edit b c) :
    Edits (n + 1) a c := by
  induction h with
  | refl a => exact .step last (.refl c)
  | step e _ ih => exact .step e (ih last)

theorem Edits.reverse {n : Nat} {a b : List α} (h : Edits n a b) :
    Edits n a.reverse b.reverse := by
  induction h with
  | refl a => exact .refl a.reverse
  | step e _ ih => exact .step e.reverse ih

/-- So many edits or fewer. -/
def EditsWithin (n : Nat) (a b : List α) : Prop :=
  ∃ m ≤ n, Edits m a b

namespace EditsWithin

variable {n : Nat} {a b c : List α}

theorem later (x : α) (h : EditsWithin n a b) : EditsWithin n (x :: a) (x :: b) := by
  obtain ⟨m, hm, h⟩ := h
  exact ⟨m, hm, h.later x⟩

theorem step (first : Edit a b) (h : EditsWithin n b c) : EditsWithin (n + 1) a c := by
  obtain ⟨m, hm, h⟩ := h
  exact ⟨m + 1, Nat.succ_le_succ hm, .step first h⟩

theorem concat (h : EditsWithin n a b) (last : Edit b c) : EditsWithin (n + 1) a c := by
  obtain ⟨m, hm, h⟩ := h
  exact ⟨m + 1, Nat.succ_le_succ hm, h.concat last⟩

end EditsWithin

/-! ## Alignments -/

/-- Two lists read side by side from the left with at most so many edits. A swap reads its
letters crosswise, and letters may be deleted and inserted between them: after `cross x y`
the letter `x` waits for its partner in the second list and `y` for its own in the first. -/
inductive Aligned : Option (α × α) → Nat → List α → List α → Prop
  | nil (n : Nat) : Aligned none n [] []
  | keep {n : Nat} {a b : List α} (x : α) : Aligned none n a b → Aligned none n (x :: a) (x :: b)
  | replace {n : Nat} {a b : List α} (x y : α) :
      Aligned none n a b → Aligned none (n + 1) (x :: a) (y :: b)
  | delete {waiting : Option (α × α)} {n : Nat} {a b : List α} (x : α) :
      Aligned waiting n a b → Aligned waiting (n + 1) (x :: a) b
  | insert {waiting : Option (α × α)} {n : Nat} {a b : List α} (y : α) :
      Aligned waiting n a b → Aligned waiting (n + 1) a (y :: b)
  | cross {n : Nat} {a b : List α} (x y : α) :
      Aligned (some (x, y)) n a b → Aligned none (n + 1) (x :: a) (y :: b)
  | uncross {n : Nat} {a b : List α} (x y : α) :
      Aligned none n a b → Aligned (some (x, y)) n (y :: a) (x :: b)

/-- What holds of two lists as a whole: the letters of a swap that is open stand in front
again, and the swap counts. -/
def Whole (R : Nat → List α → List α → Prop) : Option (α × α) → Nat → List α → List α → Prop
  | none, n, a, b => R n a b
  | some (x, y), n, a, b => R (n + 1) (x :: a) (y :: b)

namespace Aligned

theorem refl : ∀ a : List α, Aligned none 0 a a
  | [] => .nil 0
  | x :: a => .keep x (refl a)

/-- What can be done within a bound can be done within a larger one. Every way to read a letter
leaves room, and the bound is used up at the ends of the lists only. -/
theorem succ {waiting : Option (α × α)} {n : Nat} {a b : List α} (h : Aligned waiting n a b) :
    Aligned waiting (n + 1) a b := by
  induction h with
  | nil n => exact .nil (n + 1)
  | keep x _ ih => exact .keep x ih
  | replace x y _ ih => exact .replace x y ih
  | delete x _ ih => exact .delete x ih
  | insert y _ ih => exact .insert y ih
  | cross x y _ ih => exact .cross x y ih
  | uncross x y _ ih => exact .uncross x y ih

theorem mono {waiting : Option (α × α)} {n m : Nat} {a b : List α} (h : Aligned waiting n a b)
    (hm : n ≤ m) : Aligned waiting m a b := by
  induction hm with
  | refl => exact h
  | step _ ih => exact ih.succ

/-- The two lists may change their roles. -/
theorem flip {waiting : Option (α × α)} {n : Nat} {a b : List α} (h : Aligned waiting n a b) :
    Aligned (waiting.map Prod.swap) n b a := by
  induction h with
  | nil n => exact .nil n
  | keep x _ ih => exact .keep x ih
  | replace x y _ ih => exact .replace y x ih
  | delete x _ ih => exact .insert x ih
  | insert y _ ih => exact .delete y ih
  | cross x y _ ih => exact .cross y x ih
  | uncross x y _ ih => exact .uncross y x ih

/-! ### One letter more -/

/-- One letter more in the first list costs at most one deletion, wherever it stands. The
induction follows the alignment to the place of the letter; a letter that is inserted does not
take up a place there. -/
theorem extraLeft (x : α) : ∀ {waiting : Option (α × α)} {n : Nat} {a b : List α},
    Aligned waiting n a b → ∀ place, Aligned waiting (n + 1) (a.insertIdx place x) b
  | _, _, _, _, h, 0 => .delete x h
  | _, _, _, _, .nil n, _ + 1 => .nil (n + 1)
  | _, _, _, _, .keep z h, place + 1 => .keep z (h.extraLeft x place)
  | _, _, _, _, .replace z y h, place + 1 => .replace z y (h.extraLeft x place)
  | _, _, _, _, .delete z h, place + 1 => .delete z (h.extraLeft x place)
  | _, _, _, _, .insert y h, place + 1 => .insert y (h.extraLeft x (place + 1))
  | _, _, _, _, .cross z y h, place + 1 => .cross z y (h.extraLeft x place)
  | _, _, _, _, .uncross z y h, place + 1 => .uncross z y (h.extraLeft x place)

/-- One letter more in the second list costs at most one insertion. -/
theorem extraRight {n : Nat} {a b : List α} (h : Aligned none n a b) (y : α) (place : Nat) :
    Aligned none (n + 1) a (b.insertIdx place y) :=
  (h.flip.extraLeft y place).flip

/-- A swap that is open can be given up: without its first letter, the partner of the second is
kept and the first is inserted in the place of its partner. Until the swap would have been
closed, letters are deleted and inserted only. -/
theorem giveUp {x y : α} : ∀ {n : Nat} {a b : List α},
    Aligned (some (x, y)) n a b → Aligned none (n + 1) a (y :: b)
  | _, _, _, .delete z h => .delete z h.giveUp
  | _, _, _, .insert z h => h.giveUp.extraRight z 1
  | _, _, _, .uncross _ _ h => .keep y (.insert x h)

section Whole

variable {waiting : Option (α × α)} {n : Nat} {a b : List α}

/-- An open swap is what `cross` reads, with its letters in front again. -/
theorem whole (h : Aligned waiting n a b) : Whole (Aligned none) waiting n a b := by
  cases waiting with
  | none => exact h
  | some p => exact .cross p.1 p.2 h

theorem whole_succ (h : Whole (Aligned none) waiting n a b) :
    Whole (Aligned none) waiting (n + 1) a b := by
  cases waiting with
  | none => exact succ h
  | some p => exact succ h

/-- A letter in front of the first list is deleted, behind the letter of an open swap if there
is one. -/
theorem whole_delete (x : α) (h : Whole (Aligned none) waiting n a b) :
    Whole (Aligned none) waiting (n + 1) (x :: a) b := by
  cases waiting with
  | none => exact .delete x h
  | some p => exact extraLeft x h 1

/-- A letter in front of the second list is inserted, behind the letter of an open swap if
there is one. -/
theorem whole_insert (y : α) (h : Whole (Aligned none) waiting n a b) :
    Whole (Aligned none) waiting (n + 1) a (y :: b) := by
  cases waiting with
  | none => exact .insert y h
  | some p => exact extraRight h y 1

end Whole

/-! ### Two neighbours in the other order

The first of two neighbours has been read, and the rest is aligned. In the other order the
neighbours cost at most one more: there is one statement for each way to read the first, a
deletion apart, and one case for each way to read the second. -/

/-- The first of the neighbours, `x`, was kept. -/
theorem swap_keep (x y : α) : ∀ {n : Nat} {a b : List α},
    Aligned none n (y :: a) b → Aligned none (n + 1) (y :: x :: a) (x :: b)
  | _, _, _, .keep _ h => .cross y x (.uncross y x h)
  | _, _, _, .replace _ z h => .replace y x (.replace x z h)
  | _, _, _, .delete _ h => ((h.keep x).delete y).succ
  | _, _, _, .insert z h => (swap_keep x y h).extraRight z 1
  | _, _, _, .cross _ z h => .delete y (.keep x h.giveUp)

/-- The first of the neighbours, `x`, was replaced by `z`. -/
theorem swap_replace (x y z : α) : ∀ {n : Nat} {a b : List α},
    Aligned none n (y :: a) b → Aligned none (n + 2) (y :: x :: a) (z :: b)
  | _, _, _, .keep _ h => .replace y z (.replace x y h)
  | _, _, _, .replace _ w h => ((h.replace x w).replace y z).succ
  | _, _, _, .delete _ h => ((h.replace x z).delete y).succ
  | _, _, _, .insert w h => (swap_replace x y z h).extraRight w 1
  | _, _, _, .cross _ w h => .delete y (.replace x z h.giveUp)

/-- The first of the neighbours, `x`, opened a swap with `y`. -/
theorem swap_cross (x y z : α) : ∀ {n : Nat} {a b : List α},
    Aligned (some (x, y)) n (z :: a) b → Aligned none (n + 2) (z :: x :: a) (y :: b)
  | _, _, _, .delete _ h => ((h.cross x y).delete z).succ
  | _, _, _, .insert w h => (swap_cross x y z h).extraRight w 1
  | _, _, _, .uncross _ _ h => ((h.keep x).keep y).succ.succ

/-- The first of the neighbours, `y`, closed the swap that `x` had opened. -/
theorem swap_uncross (x y z : α) : ∀ {n : Nat} {a b : List α},
    Aligned none n (z :: a) b → Aligned none (n + 2) (x :: z :: y :: a) (y :: x :: b)
  | _, _, _, .keep _ h => .insert y (.keep x (.keep z (.delete y h)))
  | _, _, _, .replace _ w h => .insert y (.keep x (.replace z w (.delete y h)))
  | _, _, _, .delete _ h => (((h.uncross x y).delete z).cross x y).succ
  | _, _, _, .insert w h => (swap_uncross x y z h).extraRight w 2
  | _, _, _, .cross _ w h => .cross x y (.delete z (.uncross x y h.giveUp))

/-! ### One edit more -/

/-- **An edit in front of an alignment costs at most one more.** The edit may break a swap that
is open, so nothing is said of the rest alone. The induction is on the alignment; an edit
further back is left to the rest, and an edit at the front meets one way to read the first
letter, or two of them if it swaps neighbours. -/
theorem of_edit {waiting : Option (α × α)} {n : Nat} {a b : List α} (h : Aligned waiting n a b) :
    ∀ c, Edit c a → Whole (Aligned none) waiting (n + 1) c b := by
  -- on how the first letter of `a` is read; the edit is there or later
  induction h with
  | nil n =>
    intro c e
    cases e with
    | delete x => exact .delete x (.nil n)
  | keep x h ih =>
    intro c e
    cases e with
    | insert => exact .insert x h
    | delete y => exact .delete y (.keep x h)
    | replace y => exact .replace y x h
    | swap y => exact swap_keep x y h
    | later _ e => exact .keep x (ih _ e)
  | replace x y h ih =>
    intro c e
    cases e with
    | insert => exact (h.insert y).succ
    | delete z => exact .delete z (.replace x y h)
    | replace z => exact (h.replace z y).succ
    | swap z => exact swap_replace x z y h
    | later _ e => exact .replace x y (ih _ e)
  | delete x h ih =>
    intro c e
    cases e with
    | insert => exact whole_succ (whole_succ h.whole)
    | delete z => exact ((h.delete x).delete z).whole
    | replace z => exact whole_succ (h.delete z).whole
    | swap z => exact whole_succ (h.extraLeft x 1).whole
    | later _ e => exact whole_delete x (ih _ e)
  | insert y h ih => exact fun c e => whole_insert y (ih c e)
  | cross x y h ih =>
    intro c e
    cases e with
    | insert => exact h.giveUp.succ
    | delete z => exact .delete z (.cross x y h)
    | replace z => exact .delete z h.giveUp
    | swap z => exact swap_cross x y z h
    | later _ e => exact ih _ e
  | uncross x y h ih =>
    intro c e
    cases e with
    | insert => exact ((h.keep x).insert y).succ
    | delete z => exact .cross x y (.delete z (.uncross x y h))
    | replace z => exact .insert y (.keep x (.delete z h))
    | swap z => exact swap_uncross x y z h
    | later _ e => exact .cross x y (.uncross x y (ih _ e))

/-- An alignment can be carried out: every letter that is not kept is an edit, and the swaps
are made at their first letters, before what stands between is deleted and inserted. -/
theorem editsWithin {waiting : Option (α × α)} {n : Nat} {a b : List α}
    (h : Aligned waiting n a b) : Whole EditsWithin waiting n a b := by
  induction h with
  | nil n => exact ⟨0, Nat.zero_le n, .refl []⟩
  | keep x _ ih => exact EditsWithin.later x ih
  | replace x y _ ih => exact .step (.replace x y _) (EditsWithin.later y ih)
  | @delete waiting n a b x _ ih =>
    cases waiting with
    | none => exact EditsWithin.step (.delete x a) ih
    | some p => exact EditsWithin.step (.later p.1 (.delete x a)) ih
  | @insert waiting n a b y _ ih =>
    cases waiting with
    | none => exact EditsWithin.concat ih (.insert y b)
    | some p => exact EditsWithin.concat ih (.later p.2 (.insert y b))
  | cross x y _ ih => exact ih
  | uncross x y _ ih =>
    -- what stood between the two letters is gone by now, so they are neighbours
    exact EditsWithin.step (.swap x y _) (EditsWithin.later y (EditsWithin.later x ih))

end Aligned

/-- Every sequence of edits has an alignment that costs no more. The edits are put in front of
the alignment of the last list with itself, the last edit first. -/
theorem Edits.aligned {n : Nat} {a b : List α} (h : Edits n a b) : Aligned none n a b := by
  induction h with
  | refl a => exact .refl a
  | step e _ ih => exact ih.of_edit _ e

end MetadataBlock.EditDistance
