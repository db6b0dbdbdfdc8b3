import MetadataBlock.Text.Basic

/-!
# Rows of tab-separated cells

`Row.write` joins cells with tabs and puts a cell between quotes when it would
otherwise be misread. `Row.read` is the reader of such lines: a cell that begins
with a quote runs to the closing quote, a doubled quote standing for one, and
quotes elsewhere are ordinary text. Malformed quoting is reported, not refused.
-/

namespace MetadataBlock.Row

open Text (tab lineFeed carriageReturn space doubleQuote byteOrderMark isBlank)

/-! ## Writing -/

/-- Would the cell be misread without quotes? -/
def needsQuotes (cell : Text) : Bool :=
  cell.any (fun u => u == carriageReturn || u == lineFeed || u == doubleQuote || u == byteOrderMark
      || u == tab)
    || cell.head? == some space || cell.getLast? == some space

/-- The text with every quote doubled. -/
def doubleQuotes (cell : Text) : Text :=
  cell.flatMap fun u => if u == doubleQuote then [doubleQuote, doubleQuote] else [u]

/-- A cell as it stands in a row. -/
def writeCell (cell : Text) : Text :=
  if needsQuotes cell then doubleQuote :: doubleQuotes cell ++ [doubleQuote] else cell

/-- The line of a row. -/
def write (cells : List Text) : Text :=
  Text.joinWith [tab] (cells.map writeCell)

/-- The lines of a table, separated by line feeds. -/
def writeAll (rows : List (List Text)) : Text :=
  Text.joinWith [lineFeed] (rows.map write)

/-! ## Reading -/

/-- What can be wrong with the quotes of a cell. -/
inductive Fault where
  | malformedQuote
  | unterminated
  deriving DecidableEq, Repr

def Fault.message : Fault → Text
  | .malformedQuote => "Trailing quote on quoted field is malformed"
  | .unterminated => "Quoted field unterminated"

/-- The cells of one line and the faults found in reading it. -/
structure Parsed where
  cells : List Text
  faults : List Fault
  deriving DecidableEq

/-- What follows a cell: another cell, another row, or nothing. -/
inductive Continuation where
  | cell (rest : Text)
  | row (rest : Text)
  | stop
  deriving DecidableEq

/-- A cell that was read, with what follows it. -/
structure CellRead where
  cell : Text
  faults : List Fault
  next : Continuation
  deriving DecidableEq

/-- Does a unit end a cell without quotes? -/
def isSeparator (u : UInt16) : Bool :=
  u == tab || u == lineFeed

/-- What a separator leads to. -/
def afterSeparator : Text → Continuation
  | [] => .stop
  | u :: rest => if u == tab then .cell rest else .row rest

/-- What follows a quote that may close a cell: blanks up to a separator close it,
anything else does not. -/
def closing? (rest : Text) : Option Continuation :=
  match rest.dropWhile fun u => isBlank u && !isSeparator u with
  | [] => none
  | u :: after => if isSeparator u then some (afterSeparator (u :: after)) else none

/-- Read on inside a quoted cell. `cell` is its text so far, `raw` the same as it
was written, both reversed, and `faults` what was found so far, in order. -/
def readQuoted (cell raw : Text) (faults : List Fault) : Text → CellRead
  | [] => ⟨raw.reverse, faults ++ [.unterminated], .stop⟩
  | [u] =>
    if u == doubleQuote then ⟨cell.reverse, faults, .stop⟩
    else ⟨(u :: raw).reverse, faults ++ [.unterminated], .stop⟩
  | u :: v :: rest =>
    if u == doubleQuote then
      if v == doubleQuote then readQuoted (u :: cell) (v :: u :: raw) faults rest
      else
        match closing? (v :: rest) with
        | some next => ⟨cell.reverse, faults, next⟩
        | none => readQuoted (u :: cell) (u :: raw) (faults ++ [.malformedQuote]) (v :: rest)
    else readQuoted (u :: cell) (u :: raw) faults (v :: rest)

/-- Read one cell. -/
def readCell (line : Text) : CellRead :=
  match line with
  | [] => ⟨[], [], .stop⟩
  | u :: rest =>
    if u == doubleQuote then readQuoted [] [] [] rest
    else
      let cell := line.takeWhile (!isSeparator ·)
      ⟨cell, [], afterSeparator (line.drop cell.length)⟩

/-- The length of what is still to be read. -/
def Continuation.length : Continuation → Nat
  | .cell rest | .row rest => rest.length + 1
  | .stop => 0

theorem length_afterSeparator (t : Text) : (afterSeparator t).length ≤ t.length := by
  cases t with
  | nil => simp [afterSeparator, Continuation.length]
  | cons u rest => simp only [afterSeparator]; split <;> simp [Continuation.length]

theorem length_closing? {rest : Text} {next : Continuation} (h : closing? rest = some next) :
    next.length ≤ rest.length := by
  have drop_le := (List.dropWhile_sublist (fun u => isBlank u && !isSeparator u) (l := rest)).length_le
  rw [closing?] at h
  split at h
  · simp at h
  · next u after heq =>
    rw [heq] at drop_le
    split at h
    · cases h
      exact Nat.le_trans (length_afterSeparator _) drop_le
    · simp at h

theorem length_readQuoted (cell raw : Text) (faults : List Fault) (line : Text) :
    (readQuoted cell raw faults line).next.length ≤ line.length := by
  fun_induction readQuoted cell raw faults line with
  | case1 => simp [Continuation.length]
  | case2 => simp [Continuation.length]
  | case3 => simp [Continuation.length]
  | case4 => simp only [List.length_cons]; omega
  | case5 => rename_i h; have := length_closing? h; simp only [List.length_cons] at *; omega
  | case6 => simp only [List.length_cons] at *; omega
  | case7 => simp only [List.length_cons] at *; omega

/-- What follows a cell is not longer than the line. -/
theorem length_readCell (line : Text) : (readCell line).next.length ≤ line.length := by
  cases line with
  | nil => simp [readCell, Continuation.length]
  | cons u rest =>
    simp only [readCell]
    split
    · have := length_readQuoted [] [] [] rest
      simp only [List.length_cons]; omega
    · refine Nat.le_trans (length_afterSeparator _) ?_
      simp

/-- Read rows. `cells` are those of the present row, `faults` all that were found. -/
def readRows (cells : List Text) (faults : List Fault) (line : Text) : List (List Text) × List Fault :=
  let r := readCell line
  let cells := cells ++ [r.cell]
  let faults := faults ++ r.faults
  match _next : r.next with
  | .cell rest => readRows cells faults rest
  | .row rest =>
    let (rows, all) := readRows [] faults rest
    (cells :: rows, all)
  | .stop => ([cells], faults)
termination_by line.length
decreasing_by
  all_goals
    have := length_readCell line
    simp only [r] at _next
    rw [_next] at this
    simp only [Continuation.length] at this
    omega

/-- Read a line: the cells of its first row and the faults of all of it. A byte
order mark at the start is skipped, and an empty line has no cells. -/
def read (line : Text) : Parsed :=
  let line := if line.head? == some byteOrderMark then line.tail else line
  if line.isEmpty then ⟨[], []⟩
  else
    let (rows, faults) := readRows [] [] line
    ⟨rows.headD [], faults⟩

end MetadataBlock.Row
