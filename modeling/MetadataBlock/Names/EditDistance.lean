/-!
# Edit distance

How many edits turn one list of letters into another, where an edit inserts,
deletes or replaces one letter or swaps two neighbours, and letters may be
edited again after a swap.

The distance is the last entry of a table with a row for every beginning of the
first list and a column for every beginning of the second, the shortest first,
behind a row and a column of sentinels that are too large to be of use. A swap of
neighbours that are brought together by deletions and pulled apart by insertions
is covered by looking back from each pair of letters to the last pair that
crosses it.
-/

namespace MetadataBlock.EditDistance

variable {α : Type}

abbrev Row := Array Nat

/-- The table while it is filled: the rows that are complete, and the last row of
each letter that has been read, the latest first. -/
structure Table (α : Type) where
  sentinel : Nat
  rows : Array Row
  lastRow : List (α × Nat)

/-- The row that is being filled: its entries so far, and the last column that has
the letter of the row. -/
structure Filling where
  entries : Row
  lastMatch : Nat

namespace Table

/-- An entry of a row that is complete. -/
def entry (t : Table α) (i j : Nat) : Nat :=
  (t.rows.getD i #[]).getD j t.sentinel

/-- The table before the first letter, for a second list of so many letters. -/
def start (sentinel width : Nat) : Table α where
  sentinel := sentinel
  rows := #[Array.replicate (width + 2) sentinel, #[sentinel] ++ Array.range (width + 1)]
  lastRow := []

/-- The cost of meeting the `i`-th and the `j`-th letter crosswise, whose partners are
in row `i'` and column `j'`: what stands between is deleted and inserted. -/
def crossing (t : Table α) (i j i' j' : Nat) : Nat :=
  t.entry i' j' + (i - i' - 1) + 1 + (j - j' - 1)

end Table

variable [DecidableEq α]

/-- The next entry of the row of `x`, in the column of `y`: both letters kept or
replaced, the second inserted, the first deleted, or a crossing. -/
def Filling.extend (t : Table α) (x : α) (f : Filling) (y : α) : Filling :=
  let i := t.rows.size - 1
  let j := f.entries.size - 1
  let replaced := t.entry i j + if x = y then 0 else 1
  let inserted := f.entries.getD j t.sentinel + 1
  let deleted := t.entry i (j + 1) + 1
  let crossed := t.crossing i j ((t.lastRow.lookup y).getD 0) f.lastMatch
  { entries := f.entries.push (min replaced (min inserted (min deleted crossed)))
    lastMatch := if x = y then j else f.lastMatch }

/-- The row of `x` over the whole second list. -/
def Table.row (b : List α) (t : Table α) (x : α) : Filling :=
  b.foldl (Filling.extend t x) ⟨#[t.sentinel, t.rows.size - 1], 0⟩

/-- One more letter of the first list. -/
def Table.add (b : List α) (t : Table α) (x : α) : Table α :=
  { t with
    rows := t.rows.push (t.row b x).entries
    lastRow := (x, t.rows.size - 1) :: t.lastRow }

/-- The edit distance of two lists. -/
def distance (a b : List α) : Nat :=
  (a.foldl (Table.add b) (Table.start (a.length + b.length) b.length)).entry
    (a.length + 1) (b.length + 1)

end MetadataBlock.EditDistance
