import Mathlib.Data.List.Forall2
import Mathlib.Data.List.TakeWhile
import MetadataBlock.Proofs.RowQuoting

/-!
# Rows with cells behind them

What is read of a line does not change when a separator and more text follow it, provided
that no quote is left open: the last cell is closed by the separator as it was by the end of
the line. So cells can be put behind a line.

- `Continuation.append`, `readCell_append`: a cell in front of more text;
- `readQuoted_append`: the same inside quotes;
- `readRows_append_cell`, `read_withCells`: a line in front of more cells.
-/

namespace MetadataBlock.Row

open Text (tab lineFeed doubleQuote byteOrderMark isBlank)

/-! ## Separators -/

/-- What follows a cell when there is more text behind the line. -/
def Continuation.append (rest : Text) : Continuation → Continuation
  | .cell after => .cell (after ++ rest)
  | .row after => .row (after ++ rest)
  | .stop => afterSeparator rest

theorem afterSeparator_append (line rest : Text) :
    afterSeparator (line ++ rest) = (afterSeparator line).append rest := by
  cases line with
  | nil => rfl
  | cons u line =>
    rw [List.cons_append, afterSeparator, afterSeparator]
    split <;> rfl

/-- A quote that closes its cell still closes it with more text behind the line. -/
theorem closing?_append {line : Text} {next : Continuation} (h : closing? line = some next)
    (rest : Text) : closing? (line ++ rest) = some (next.append rest) := by
  rw [closing?] at h
  split at h
  · cases h
  · next u after heq =>
    split at h
    · next hsep =>
      cases h
      rw [closing?, List.dropWhile_append, heq]
      simp only [List.isEmpty_cons, Bool.false_eq_true, if_false, List.cons_append, hsep, if_true]
      exact congrArg some (afterSeparator_append (u :: after) rest)
    · cases h

/-- Text behind the line closes no cell if there is another quote in front of it. Only blanks
may stand between a closing quote and its separator. -/
theorem closing?_append_of_mem {line : Text} (h : closing? line = none)
    (hquote : doubleQuote ∈ line) (rest : Text) : closing? (line ++ rest) = none := by
  have hne : line.dropWhile (fun u => isBlank u && !isSeparator u) ≠ [] := by
    rw [Ne, List.dropWhile_eq_nil_iff]
    intro hall
    exact absurd (hall _ hquote) (by decide)
  rw [closing?] at h
  split at h
  · next heq => exact absurd heq hne
  · next u after heq =>
    split at h
    · cases h
    · next hsep =>
      rw [closing?, List.dropWhile_append, heq]
      simp only [List.isEmpty_cons, Bool.false_eq_true, if_false, List.cons_append, hsep]

/-! ## One cell -/

/-- A quote that neither closes its cell nor is doubled is kept and reported. -/
theorem readQuoted_malformed {v : UInt16} {rest : Text} (hv : (v == doubleQuote) = false)
    (h : closing? (v :: rest) = none) (cell raw : Text) (faults : List Fault) :
    readQuoted cell raw faults (doubleQuote :: v :: rest)
      = readQuoted (doubleQuote :: cell) (doubleQuote :: raw) (faults ++ [.malformedQuote])
          (v :: rest) := by
  rw [readQuoted.eq_def]
  simp only [beq_self_eq_true, if_true, hv, Bool.false_eq_true, if_false, h]

/-- Without another quote a quoted cell is not closed. -/
theorem unterminated_mem_readQuoted (cell raw : Text) (faults : List Fault) {line : Text}
    (h : doubleQuote ∉ line) : .unterminated ∈ (readQuoted cell raw faults line).faults := by
  fun_induction readQuoted cell raw faults line with
  | case1 => simp
  | case2 cell raw faults u hu => exact absurd (List.mem_singleton.mpr (eq_of_beq hu).symm) h
  | case3 => simp
  | case4 cell raw faults u v after hu =>
    exact absurd (eq_of_beq hu ▸ List.mem_cons_self) h
  | case5 cell raw faults u v after hu =>
    exact absurd (eq_of_beq hu ▸ List.mem_cons_self) h
  | case6 cell raw faults u v after hu =>
    exact absurd (eq_of_beq hu ▸ List.mem_cons_self) h
  | case7 cell raw faults u v after hu ih => exact ih fun hmem => h (List.mem_cons_of_mem _ hmem)

section

variable {rest : Text} (hrest : Ends rest) (hne : rest ≠ [])

include hrest hne

/-- A quoted cell that is closed is read the same in front of a separator. The induction goes
along the reading; where a quote is at fault another one follows, so the new text is not looked
at. -/
theorem readQuoted_append (cell raw : Text) (faults : List Fault) (line : Text)
    (hclosed : .unterminated ∉ (readQuoted cell raw faults line).faults) :
    readQuoted cell raw faults (line ++ rest)
      = ⟨(readQuoted cell raw faults line).cell, (readQuoted cell raw faults line).faults,
          (readQuoted cell raw faults line).next.append rest⟩ := by
  obtain ⟨w, after, hw⟩ := List.exists_cons_of_ne_nil hne
  fun_induction readQuoted cell raw faults line with
  | case1 cell raw faults => simp at hclosed
  | case2 cell raw faults u hu =>
    -- the quote that ended the line closes the cell in front of the separator
    obtain rfl := eq_of_beq hu
    have hquote : (w == doubleQuote) = false := by
      rw [beq_eq_false_iff_ne]
      rintro rfl
      have hsep := hrest doubleQuote (by rw [hw]; rfl)
      rw [isSeparator_doubleQuote] at hsep
      cases hsep
    subst hw
    exact readQuoted_closed hquote (closing?_of_ends hrest) cell raw faults
  | case3 cell raw faults u hu => simp at hclosed
  | case4 cell raw faults u v line hu hv ih =>
    obtain rfl := eq_of_beq hu
    obtain rfl := eq_of_beq hv
    rw [List.cons_append, List.cons_append, readQuoted_pair]
    exact ih hclosed
  | case5 cell raw faults u v line hu hv next hnext =>
    obtain rfl := eq_of_beq hu
    exact readQuoted_closed (Bool.not_eq_true _ ▸ hv) (closing?_append hnext rest) cell raw faults
  | case6 cell raw faults u v line hu hv hnext ih =>
    obtain rfl := eq_of_beq hu
    -- a later quote closes the cell, so this one stays malformed
    have hquote : doubleQuote ∈ v :: line := by
      by_contra hnone
      exact hclosed (unterminated_mem_readQuoted _ _ _ hnone)
    have hmalformed := readQuoted_malformed (Bool.not_eq_true _ ▸ hv)
      (closing?_append_of_mem hnext hquote rest) cell raw faults
    exact hmalformed.trans (ih hclosed)
  | case7 cell raw faults u v line hu ih =>
    rw [List.cons_append, List.cons_append, readQuoted_other (Bool.not_eq_true _ ▸ hu)]
    exact ih hclosed

/-- A cell that is closed is read the same in front of a separator. Without quotes it ends at
the first separator, and with them at the closing quote. -/
theorem readCell_append {line : Text} (hclosed : .unterminated ∉ (readCell line).faults) :
    readCell (line ++ rest)
      = ⟨(readCell line).cell, (readCell line).faults, (readCell line).next.append rest⟩ := by
  cases line with
  | nil =>
    have hnone : ∀ u ∈ ([] : Text), isSeparator u = false ∧ u ≠ doubleQuote := List.forall_mem_nil _
    exact readCell_plain hnone hrest
  | cons u line =>
    by_cases hu : u = doubleQuote
    · have hquote : (u == doubleQuote) = true := beq_iff_eq.mpr hu
      rw [readCell, if_pos hquote] at hclosed
      rw [List.cons_append, readCell, if_pos hquote, readCell, if_pos hquote]
      exact readQuoted_append hrest hne [] [] [] line hclosed
    · -- the new text begins with a separator, so the cell ends where it did
      have htake : (u :: line ++ rest).takeWhile (!isSeparator ·)
          = (u :: line).takeWhile (!isSeparator ·) := by
        rw [List.takeWhile_append, takeWhile_of_ends hrest, List.append_nil]
        split
        · next hall => exact ((List.takeWhile_prefix _).eq_of_length hall).symm
        · rfl
      rw [List.cons_append, readCell_unquoted hu, readCell_unquoted hu, ← List.cons_append, htake,
        List.drop_append_of_le_length (List.takeWhile_prefix _).length_le, afterSeparator_append]

end

/-! ## Lines of one row -/

theorem afterSeparator_ne_row {line : Text} (hends : Ends line) (h : lineFeed ∉ line)
    (after : Text) : afterSeparator line ≠ .row after := by
  cases line with
  | nil =>
    intro hrow
    cases hrow
  | cons u line =>
    have hu : u ≠ lineFeed := fun heq => h (heq ▸ List.mem_cons_self)
    have hsep : (u == tab) = true := by simpa [isSeparator, hu] using hends u rfl
    rw [afterSeparator, if_pos hsep]
    intro hrow
    cases hrow

theorem closing?_ne_row {line : Text} (h : lineFeed ∉ line) (after : Text) :
    closing? line ≠ some (.row after) := by
  rw [closing?]
  split
  · intro hrow
    cases hrow
  · next u rest heq =>
    split
    · next hsep =>
      have hmem : lineFeed ∉ u :: rest := fun hmem =>
        h ((List.dropWhile_sublist _).subset (heq ▸ hmem))
      have hends : Ends (u :: rest) := by
        rintro v hv
        cases hv
        exact hsep
      exact fun hrow => afterSeparator_ne_row hends hmem after (Option.some.inj hrow)
    · intro hrow
      cases hrow

/-- A quoted cell ends in front of a line feed only if the line holds one. -/
theorem next_readQuoted_ne_row (cell raw : Text) (faults : List Fault) {line : Text}
    (h : lineFeed ∉ line) (after : Text) : (readQuoted cell raw faults line).next ≠ .row after := by
  fun_induction readQuoted cell raw faults line with
  | case1 | case2 | case3 =>
    intro hrow
    cases hrow
  | case4 cell raw faults u v line hu hv ih =>
    exact ih fun hmem => h (List.mem_cons_of_mem _ (List.mem_cons_of_mem _ hmem))
  | case5 cell raw faults u v line hu hv next hnext =>
    rintro rfl
    exact closing?_ne_row (fun hmem => h (List.mem_cons_of_mem _ hmem)) after hnext
  | case6 cell raw faults u v line hu hv hnext ih =>
    exact ih fun hmem => h (List.mem_cons_of_mem _ hmem)
  | case7 cell raw faults u v line hu ih => exact ih fun hmem => h (List.mem_cons_of_mem _ hmem)

/-- Without a line feed there is no second row. -/
theorem next_readCell_ne_row {line : Text} (h : lineFeed ∉ line) (after : Text) :
    (readCell line).next ≠ .row after := by
  cases line with
  | nil =>
    intro hrow
    cases hrow
  | cons u line =>
    by_cases hu : u = doubleQuote
    · rw [readCell, if_pos (beq_iff_eq.mpr hu)]
      exact next_readQuoted_ne_row [] [] [] (fun hmem => h (List.mem_cons_of_mem _ hmem)) after
    · have hdrop : (u :: line).drop ((u :: line).takeWhile (!isSeparator ·)).length
          = (u :: line).dropWhile (!isSeparator ·) := by
        have hsplit := List.takeWhile_append_dropWhile (p := (!isSeparator ·)) (l := u :: line)
        nth_rewrite 2 [← hsplit]
        exact List.drop_left
      -- what is left begins with the separator that ended the cell
      have hends : Ends ((u :: line).dropWhile (!isSeparator ·)) := by
        intro v hv
        have hnot := List.head?_dropWhile_not (!isSeparator ·) (u :: line)
        rw [hv] at hnot
        simpa using hnot
      rw [readCell_unquoted hu, hdrop]
      have hrest : lineFeed ∉ (u :: line).dropWhile (!isSeparator ·) := fun hmem =>
        h ((List.dropWhile_sublist _).subset hmem)
      exact afterSeparator_ne_row hends hrest after

/-! ## Cells behind a line -/

/-- A line with the texts of some cells behind it. -/
def withCells (line : Text) (texts : List Text) : Text :=
  line ++ texts.flatMap (tab :: ·)

/-- What was found up to a cell stays. -/
theorem faults_prefix_readRows (cells : List Text) (faults : List Fault) (line : Text) :
    faults ++ (readCell line).faults <+: (readRows cells faults line).2 := by
  fun_induction readRows cells faults line with
  | case1 cells faults line r cells' faults' rest next ih =>
    exact (List.prefix_append faults' _).trans ih
  | case2 cells faults line r cells' faults' rest next rows all heq ih =>
    rw [heq] at ih
    exact (List.prefix_append faults' _).trans ih
  | case3 cells faults line r cells' faults' next => exact List.prefix_rfl

/-- Reading on brings up no unit that the line does not hold. -/
theorem not_mem_rest {u : UInt16} {line rest : Text} (h : u ∉ line)
    (hnext : (readCell line).next = .cell rest) : u ∉ rest := by
  have hrest := (readCell_forall fun v hv (heq : v = u) => h (heq ▸ hv)).2
  rw [hnext] at hrest
  exact fun hmem => hrest u hmem rfl

theorem not_mem_withoutMark {u : UInt16} {line : Text} (h : u ∉ line) : u ∉ withoutMark line :=
  fun hmem => withoutMark_forall (fun v hv (heq : v = u) => h (heq ▸ hv)) u hmem rfl

/-- A line without line feeds is one row, which has a first cell. So nothing is lost by taking
the first of its rows. -/
theorem exists_readRows_eq (cells : List Text) (faults : List Fault) {line : Text}
    (hline : lineFeed ∉ line) :
    ∃ first more, (readRows cells faults line).1 = [first :: more] := by
  fun_induction readRows cells faults line with
  | case1 cells faults line r cells' faults' rest next ih => exact ih (not_mem_rest hline next)
  | case2 cells faults line r cells' faults' rest next =>
    exact absurd next (next_readCell_ne_row hline rest)
  | case3 cells faults line r cells' faults' next =>
    obtain ⟨first, more, hrow⟩ : ∃ first more, cells' = first :: more :=
      List.exists_cons_of_ne_nil (List.append_ne_nil_of_right_ne_nil _ (List.cons_ne_nil _ _))
    exact ⟨first, more, congrArg ([·]) hrow⟩

/-- The text of one cell, with quotes or without. -/
structure Reads (text cell : Text) : Prop where
  read : readCell text = ⟨cell, [], .stop⟩
  no_feed : lineFeed ∉ text

/-- One more cell behind a line joins its row. The induction is on the length of the line: the
first cell is read the same, and what is behind it is shorter. -/
theorem readRows_append_cell {text cell : Text} (hcell : Reads text cell) (cells : List Text)
    (faults : List Fault) {line : Text} (hline : lineFeed ∉ line)
    (hclosed : .unterminated ∉ (readRows cells faults line).2) :
    readRows cells faults (line ++ tab :: text)
      = ((readRows cells faults line).1.map (· ++ [cell]), (readRows cells faults line).2) := by
  induction hlen : line.length using Nat.strongRecOn generalizing cells faults line with
  | _ n ih =>
    subst hlen
    have hread : .unterminated ∉ (readCell line).faults := fun hmem =>
      hclosed ((faults_prefix_readRows cells faults line).subset (List.mem_append_right _ hmem))
    have happend := readCell_append (ends_tab text) (List.cons_ne_nil tab text) hread
    cases hnext : (readCell line).next with
    | row after => exact absurd hnext (next_readCell_ne_row hline after)
    | stop =>
      -- the line ended with its last cell, so the new one is read next
      have hcells : (readCell (line ++ tab :: text)).next = .cell text := by
        rw [happend, hnext]
        rfl
      rw [readRows_stop hnext, readRows_cell hcells, readRows_stop (by rw [hcell.read]), happend,
        hcell.read, List.append_nil]
      rfl
    | cell rest =>
      have hcells : (readCell (line ++ tab :: text)).next = .cell (rest ++ tab :: text) := by
        rw [happend, hnext]
        rfl
      have hshorter := length_readCell line
      rw [hnext] at hshorter
      rw [readRows_cell hnext] at hclosed ⊢
      rw [readRows_cell hcells, happend]
      exact ih rest.length hshorter _ _ (not_mem_rest hline hnext) hclosed rfl

theorem withoutMark_append_cell (line text : Text) :
    withoutMark (line ++ tab :: text) = withoutMark line ++ tab :: text := by
  cases line with
  | nil => rfl
  | cons u line =>
    rw [withoutMark, withoutMark,
      show (u :: line ++ tab :: text).head? = (u :: line).head? from rfl]
    by_cases hmark : ((u :: line).head? == some byteOrderMark) = true
    · rw [if_pos hmark, if_pos hmark]
      rfl
    · rw [if_neg hmark, if_neg hmark]

/-- A line is read as its one row. An empty line, which has no cells, is like one with an
empty cell. -/
theorem exists_read_eq {line : Text} (hline : lineFeed ∉ line) :
    ∃ first more,
      readRows [] [] (withoutMark line) = ([first :: more], (read line).faults)
        ∧ (read line).cells.headD [] = first ∧ (read line).cells.tail = more := by
  have hbody := not_mem_withoutMark hline
  rw [read_eq]
  generalize withoutMark line = body at hbody ⊢
  cases body with
  | nil => exact ⟨[], [], by rw [readRows_stop rfl]; rfl, rfl, rfl⟩
  | cons u body =>
    obtain ⟨first, more, hrow⟩ := exists_readRows_eq [] [] hbody
    refine ⟨first, more, Prod.ext hrow rfl, ?_, ?_⟩
    · simp only [List.isEmpty_cons, Bool.false_eq_true, if_false, hrow, List.headD_cons]
    · simp only [List.isEmpty_cons, Bool.false_eq_true, if_false, hrow, List.headD_cons,
        List.tail_cons]

/-- The row of a line with one more cell behind it. The leading cell and the faults stay. -/
theorem read_append_cell {text cell : Text} (hcell : Reads text cell) {line : Text}
    (hline : lineFeed ∉ line) (hclosed : .unterminated ∉ (read line).faults) :
    (read (line ++ tab :: text)).faults = (read line).faults
      ∧ (read (line ++ tab :: text)).cells.headD [] = (read line).cells.headD []
      ∧ (read (line ++ tab :: text)).cells.tail = (read line).cells.tail ++ [cell] := by
  obtain ⟨first, more, hrow, rfl, rfl⟩ := exists_read_eq hline
  have happend := readRows_append_cell hcell [] [] (not_mem_withoutMark hline) (by rwa [hrow])
  have hlonger : (withoutMark line ++ tab :: text).isEmpty = false := by simp
  rw [read_eq (line ++ tab :: text), withoutMark_append_cell, hlonger, happend, hrow]
  exact ⟨rfl, rfl, rfl⟩

/-- Cells behind a line join its row, if no quote is left open in it. -/
theorem read_withCells {texts cells : List Text} (hcells : List.Forall₂ Reads texts cells)
    {line : Text} (hline : lineFeed ∉ line) (hclosed : .unterminated ∉ (read line).faults) :
    (read (withCells line texts)).cells.headD [] = (read line).cells.headD []
      ∧ (read (withCells line texts)).cells.tail = (read line).cells.tail ++ cells := by
  induction hcells generalizing line with
  | nil => simp [withCells]
  | @cons text cell texts cells hcell hcells ih =>
    obtain ⟨hfaults, hfirst, hmore⟩ := read_append_cell hcell hline hclosed
    have hstep : withCells line (text :: texts) = withCells (line ++ tab :: text) texts := by
      simp [withCells]
    have hfeed : lineFeed ∉ line ++ tab :: text :=
      List.not_mem_append hline (List.not_mem_cons_of_ne_of_not_mem (by decide) hcell.no_feed)
    obtain ⟨hfirst', hmore'⟩ := ih hfeed (by rwa [hfaults])
    rw [hstep]
    exact ⟨hfirst'.trans hfirst, by rw [hmore', hmore, List.append_assoc, List.singleton_append]⟩

end MetadataBlock.Row
