import MetadataBlock.Table.Row

/-!
# Reading undoes the quoting of rows

A row that was written reads back as its cells, whatever they hold: quotes are
put exactly around the cells that would be misread without them.

- `Ends rest`: a cell can end in front of `rest`, which is nothing or begins with
  a separator;
- `readCell_writeCell`: one written cell in front of such a rest;
- `read_write`: a whole row, of any cells;
- `read_forall`: reading invents no units, so what holds of every unit of a line
  holds of every unit of its cells;
- `faults_read_of_not_mem`: only quotes can be at fault.
-/

namespace MetadataBlock.Row

open Text (tab lineFeed carriageReturn space doubleQuote byteOrderMark isBlank)

/-! ## Separators -/

theorem isSeparator_doubleQuote : isSeparator doubleQuote = false := by decide

/-- A cell ends in front of the rest. -/
def Ends (rest : Text) : Prop :=
  ∀ u, rest.head? = some u → isSeparator u = true

theorem ends_nil : Ends [] := by
  intro u h
  cases h

theorem ends_tab (rest : Text) : Ends (tab :: rest) := by
  intro u h
  cases h
  rfl

/-- No unit of such a rest belongs to the cell in front of it. -/
theorem takeWhile_of_ends {rest : Text} (h : Ends rest) :
    rest.takeWhile (!isSeparator ·) = [] := by
  cases rest with
  | nil => rfl
  | cons v after => rw [List.takeWhile_cons_of_neg (by simp [h v rfl])]

/-- A quote in front of such a rest closes its cell. -/
theorem closing?_of_ends {u : UInt16} {rest : Text} (h : Ends (u :: rest)) :
    closing? (u :: rest) = some (afterSeparator (u :: rest)) := by
  have hu : isSeparator u = true := h u rfl
  have hdrop : (u :: rest).dropWhile (fun v => isBlank v && !isSeparator v) = u :: rest := by
    rw [List.dropWhile_cons_of_neg]
    simp [hu]
  rw [closing?, hdrop]
  show (if isSeparator u then some (afterSeparator (u :: rest)) else none) = _
  rw [if_pos hu]

/-! ## One cell -/

@[simp] theorem doubleQuotes_nil : doubleQuotes [] = [] := rfl

theorem doubleQuotes_quote (cell : Text) :
    doubleQuotes (doubleQuote :: cell) = doubleQuote :: doubleQuote :: doubleQuotes cell := rfl

theorem doubleQuotes_other {u : UInt16} (h : u ≠ doubleQuote) (cell : Text) :
    doubleQuotes (u :: cell) = u :: doubleQuotes cell := by
  simp [doubleQuotes, h]

/-! The steps of reading inside quotes, one for every kind of unit. -/

theorem readQuoted_last (cell raw : Text) (faults : List Fault) :
    readQuoted cell raw faults [doubleQuote] = ⟨cell.reverse, faults, .stop⟩ := by
  rw [readQuoted.eq_def]
  simp only [beq_self_eq_true, if_true]

/-- A doubled quote is one quote of the cell. -/
theorem readQuoted_pair (cell raw : Text) (faults : List Fault) (rest : Text) :
    readQuoted cell raw faults (doubleQuote :: doubleQuote :: rest)
      = readQuoted (doubleQuote :: cell) (doubleQuote :: doubleQuote :: raw) faults rest := by
  rw [readQuoted.eq_def]
  simp only [beq_self_eq_true, if_true]

theorem readQuoted_closed {v : UInt16} {rest : Text} {next : Continuation}
    (hv : (v == doubleQuote) = false) (h : closing? (v :: rest) = some next)
    (cell raw : Text) (faults : List Fault) :
    readQuoted cell raw faults (doubleQuote :: v :: rest) = ⟨cell.reverse, faults, next⟩ := by
  rw [readQuoted.eq_def]
  simp only [beq_self_eq_true, if_true, hv, Bool.false_eq_true, if_false, h]

theorem readQuoted_other {u : UInt16} (hu : (u == doubleQuote) = false) (cell raw : Text)
    (faults : List Fault) (v : UInt16) (rest : Text) :
    readQuoted cell raw faults (u :: v :: rest)
      = readQuoted (u :: cell) (u :: raw) faults (v :: rest) := by
  rw [readQuoted.eq_def]
  simp only [hu, Bool.false_eq_true, if_false]

/-- Inside quotes the doubled text is read up to the closing quote. `cell` and `raw` hold what
was read before it, in reverse, so the induction is for any of them. -/
theorem readQuoted_doubleQuotes {rest : Text} (hrest : Ends rest) (faults : List Fault)
    (text : Text) : ∀ cell raw : Text,
      readQuoted cell raw faults (doubleQuotes text ++ doubleQuote :: rest)
        = ⟨cell.reverse ++ text, faults, afterSeparator rest⟩ := by
  induction text with
  | nil =>
    intro cell raw
    rw [doubleQuotes_nil, List.nil_append, List.append_nil]
    cases rest with
    | nil => exact readQuoted_last cell raw faults
    | cons v after =>
      have hv : (v == doubleQuote) = false := by
        rw [beq_eq_false_iff_ne]
        rintro rfl
        have hsep := hrest _ rfl
        rw [isSeparator_doubleQuote] at hsep
        cases hsep
      exact readQuoted_closed hv (closing?_of_ends hrest) cell raw faults
  | cons u text ih =>
    intro cell raw
    by_cases hu : u = doubleQuote
    · subst hu
      rw [doubleQuotes_quote, List.cons_append, List.cons_append, readQuoted_pair, ih]
      simp
    · rw [doubleQuotes_other hu, List.cons_append]
      -- the text in front of the closing quote is never empty, so a pair is always in sight
      obtain ⟨v, after, hafter⟩ :
          ∃ v after, doubleQuotes text ++ doubleQuote :: rest = v :: after :=
        List.exists_cons_of_ne_nil (by simp)
      rw [hafter, readQuoted_other (beq_eq_false_iff_ne.mpr hu), ← hafter, ih]
      simp

/-- What a cell without quotes is free of. -/
theorem not_mem_of_needsQuotes {cell : Text} (h : needsQuotes cell = false) {u : UInt16}
    (hu : u ∈ cell) :
    u ≠ carriageReturn ∧ u ≠ lineFeed ∧ u ≠ doubleQuote ∧ u ≠ byteOrderMark ∧ u ≠ tab := by
  simp only [needsQuotes, Bool.or_eq_false_iff, List.any_eq_false] at h
  have := h.1.1 u hu
  simpa [not_or, and_assoc] using this

theorem writeCell_of_needsQuotes {cell : Text} (h : needsQuotes cell = true) :
    writeCell cell = doubleQuote :: doubleQuotes cell ++ [doubleQuote] := by
  rw [writeCell, if_pos h]

theorem writeCell_of_not_needsQuotes {cell : Text} (h : needsQuotes cell = false) :
    writeCell cell = cell := by
  rw [writeCell, if_neg (by simp [h])]

/-- A cell that does not begin with a quote runs to the next separator. -/
theorem readCell_unquoted {u : UInt16} (hu : u ≠ doubleQuote) (line : Text) :
    readCell (u :: line)
      = ⟨(u :: line).takeWhile (!isSeparator ·), [],
          afterSeparator ((u :: line).drop ((u :: line).takeWhile (!isSeparator ·)).length)⟩ := by
  rw [readCell, if_neg (by simpa using hu)]

/-- A cell without quotes and separators is read as it is, since it is all that stands in front
of the first separator. -/
theorem readCell_plain {cell rest : Text}
    (hcell : ∀ u ∈ cell, isSeparator u = false ∧ u ≠ doubleQuote) (hrest : Ends rest) :
    readCell (cell ++ rest) = ⟨cell, [], afterSeparator rest⟩ := by
  -- no unit of the cell is a separator, and none of the rest belongs to it
  have htake : (cell ++ rest).takeWhile (!isSeparator ·) = cell := by
    have hall : ∀ u ∈ cell, (!isSeparator u) = true := by
      intro u hu
      rw [(hcell u hu).1]
      rfl
    rw [List.takeWhile_append_of_pos hall, takeWhile_of_ends hrest, List.append_nil]
  -- the reader looks at the first unit, which may be the rest's if the cell is empty
  cases hline : cell ++ rest with
  | nil =>
    obtain ⟨rfl, rfl⟩ := List.append_eq_nil_iff.mp hline
    rfl
  | cons u line =>
    have hu : u ≠ doubleQuote := by
      rintro rfl
      cases cell with
      | nil =>
        have hsep := hrest doubleQuote (by rw [List.nil_append] at hline; rw [hline]; rfl)
        rw [isSeparator_doubleQuote] at hsep
        cases hsep
      | cons v cell =>
        cases hline
        exact (hcell _ List.mem_cons_self).2 rfl
    rw [readCell_unquoted hu, ← hline, htake, List.drop_left]

/-- A cell that is written without quotes is plain. -/
theorem plain_of_needsQuotes {cell : Text} (h : needsQuotes cell = false) :
    ∀ u ∈ cell, isSeparator u = false ∧ u ≠ doubleQuote := by
  intro u hu
  obtain ⟨-, hlf, hquote, -, htab⟩ := not_mem_of_needsQuotes h hu
  exact ⟨by simp [isSeparator, hlf, htab], hquote⟩

/-- A written cell is read as it was, with quotes or without. Both ways to read lead to the
same place behind it. -/
theorem readCell_writeCell (cell : Text) {rest : Text} (hrest : Ends rest) :
    readCell (writeCell cell ++ rest) = ⟨cell, [], afterSeparator rest⟩ := by
  cases h : needsQuotes cell with
  | false => rw [writeCell_of_not_needsQuotes h, readCell_plain (plain_of_needsQuotes h) hrest]
  | true =>
    rw [writeCell_of_needsQuotes h]
    show readCell (doubleQuote :: (doubleQuotes cell ++ [doubleQuote] ++ rest)) = _
    rw [readCell, if_pos (by rfl), List.append_assoc, List.singleton_append,
      readQuoted_doubleQuotes hrest]
    rfl

/-! ## One row -/

theorem write_singleton (cell : Text) : write [cell] = writeCell cell := by
  simp [write, Text.joinWith]

theorem write_cons_cons (cell next : Text) (cells : List Text) :
    write (cell :: next :: cells) = writeCell cell ++ tab :: write (next :: cells) := by
  simp [write, Text.joinWith, List.intercalate_cons_cons]

/-- A separator of cells goes on with the row. -/
theorem readRows_cell {cells : List Text} {faults : List Fault} {line rest : Text}
    (h : (readCell line).next = .cell rest) :
    readRows cells faults line
      = readRows (cells ++ [(readCell line).cell]) (faults ++ (readCell line).faults) rest := by
  rw [readRows]
  split <;> simp_all

theorem readRows_stop {cells : List Text} {faults : List Fault} {line : Text}
    (h : (readCell line).next = .stop) :
    readRows cells faults line
      = ([cells ++ [(readCell line).cell]], faults ++ (readCell line).faults) := by
  rw [readRows]
  split <;> simp_all

/-- A written row is read as one row, behind the cells that were read before it. The recursion
goes along the cells, as writing does. -/
theorem readRows_write : ∀ (row done : List Text), row ≠ [] →
    readRows done [] (write row) = ([done ++ row], [])
  | [], _, h => absurd rfl h
  | [cell], done, _ => by
    have hread := readCell_writeCell cell ends_nil
    rw [List.append_nil] at hread
    rw [write_singleton, readRows_stop (by rw [hread]; rfl), hread]
    rfl
  | cell :: next :: cells, done, _ => by
    have hread := readCell_writeCell cell (ends_tab (write (next :: cells)))
    have hnext : (readCell (writeCell cell ++ tab :: write (next :: cells))).next
        = .cell (write (next :: cells)) := by
      rw [hread]
      rfl
    -- the cell joins those in front of it, and the tab leads on to the rest of the row
    rw [write_cons_cons, readRows_cell hnext, hread, List.append_nil,
      readRows_write (next :: cells) _ (List.cons_ne_nil _ _)]
    simp

/-- A cell that begins with a byte order mark is quoted. -/
theorem head?_writeCell_ne (cell rest : Text) (hrest : rest.head? ≠ some byteOrderMark) :
    (writeCell cell ++ rest).head? ≠ some byteOrderMark := by
  cases h : needsQuotes cell with
  | true =>
    rw [writeCell_of_needsQuotes h]
    show some doubleQuote ≠ some byteOrderMark
    decide
  | false =>
    rw [writeCell_of_not_needsQuotes h]
    cases cell with
    | nil => exact hrest
    | cons u cell =>
      intro hhead
      cases hhead
      exact (not_mem_of_needsQuotes h List.mem_cons_self).2.2.2.1 rfl

/-- A row never begins with a byte order mark, which reading would drop. -/
theorem head?_write_ne : ∀ row : List Text, (write row).head? ≠ some byteOrderMark
  | [] => by decide
  | [cell] => by
    have h := head?_writeCell_ne cell [] (by decide)
    rwa [List.append_nil, ← write_singleton] at h
  | cell :: next :: cells => by
    rw [write_cons_cons]
    exact head?_writeCell_ne _ _ (by simp; decide)

theorem writeCell_eq_nil_iff {cell : Text} : writeCell cell = [] ↔ cell = [] := by
  cases h : needsQuotes cell with
  | false => rw [writeCell_of_not_needsQuotes h]
  | true =>
    constructor
    · intro hnil
      rw [writeCell_of_needsQuotes h] at hnil
      cases hnil
    · rintro rfl
      cases h

/-- Only no cell at all or a single empty one makes an empty line, and an empty line has no
cells. -/
theorem write_ne_nil {row : List Text} (h : row ≠ []) (h' : row ≠ [[]]) : write row ≠ [] := by
  match row with
  | [] => exact absurd rfl h
  | [cell] =>
    rw [write_singleton]
    intro hnil
    exact h' (by rw [writeCell_eq_nil_iff.mp hnil])
  | cell :: next :: cells =>
    rw [write_cons_cons]
    simp

/-- A row that was written reads back as its cells, without a fault. The two rows that are
written as an empty line are the exception. -/
theorem read_write {row : List Text} (h : row ≠ []) (h' : row ≠ [[]]) :
    read (write row) = ⟨row, []⟩ := by
  have hmark : ((write row).head? == some byteOrderMark) = false :=
    beq_eq_false_iff_ne.mpr (head?_write_ne row)
  have hline : (write row).isEmpty = false := List.isEmpty_eq_false_iff.mpr (write_ne_nil h h')
  simp only [read, hmark, Bool.false_eq_true, if_false, hline]
  rw [readRows_write row [] h]
  rfl

/-! ## What reading leaves of a line -/

/-- The line without a byte order mark in front. -/
def withoutMark (line : Text) : Text :=
  if line.head? == some byteOrderMark then line.tail else line

/-- A line is read from behind its byte order mark, and an empty one has no cells. -/
theorem read_eq (line : Text) :
    read line = if (withoutMark line).isEmpty then ⟨[], []⟩
      else ⟨(readRows [] [] (withoutMark line)).1.headD [], (readRows [] [] (withoutMark line)).2⟩ :=
  rfl

section

variable {P : UInt16 → Prop}

/-- What is still to be read after a cell. -/
def Continuation.text : Continuation → Text
  | .cell rest | .row rest => rest
  | .stop => []

theorem afterSeparator_forall : ∀ {line : Text}, (∀ u ∈ line, P u) →
    ∀ u ∈ (afterSeparator line).text, P u
  | [], _, _, hu => by cases hu
  | v :: rest, h, u, hu => by
    apply h
    rw [afterSeparator] at hu
    split at hu <;> exact List.mem_cons_of_mem _ hu

theorem closing?_forall {line : Text} {next : Continuation} (h : ∀ u ∈ line, P u)
    (hnext : closing? line = some next) : ∀ u ∈ next.text, P u := by
  rw [closing?] at hnext
  split at hnext
  · cases hnext
  · next v after heq =>
    split at hnext
    · cases hnext
      refine afterSeparator_forall fun u hu => h u ?_
      have hsub := (List.dropWhile_sublist (fun w => isBlank w && !isSeparator w) (l := line)).subset
      exact hsub (heq ▸ hu)
    · cases hnext

/-- Inside quotes every unit of the cell and of what follows it was in the line, or had been
read before. -/
theorem readQuoted_forall (line : Text) : ∀ (cell raw : Text) (faults : List Fault),
    (∀ u ∈ cell, P u) → (∀ u ∈ raw, P u) → (∀ u ∈ line, P u) →
      (∀ u ∈ (readQuoted cell raw faults line).cell, P u) ∧
        ∀ u ∈ (readQuoted cell raw faults line).next.text, P u := by
  -- the recursion skips two units at a doubled quote, hence the induction on the length
  induction hlen : line.length using Nat.strongRecOn generalizing line with
  | _ n ih =>
    subst hlen
    intro cell raw faults hcell hraw hline
    match line with
    | [] =>
      rw [readQuoted.eq_def]
      exact ⟨by simpa using hraw, by simp [Continuation.text]⟩
    | [u] =>
      rw [readQuoted.eq_def]
      by_cases hu : (u == doubleQuote) = true
      · simp only [hu, if_true]
        exact ⟨by simpa using hcell, by simp [Continuation.text]⟩
      · simp only [hu]
        refine ⟨fun v hv => ?_, by simp [Continuation.text]⟩
        rcases List.mem_cons.mp (List.mem_reverse.mp hv) with rfl | hv
        · exact hline v List.mem_cons_self
        · exact hraw v hv
    | u :: v :: rest =>
      rw [List.forall_mem_cons] at hline
      obtain ⟨hu, hrest⟩ := hline
      have hpush : ∀ {t : Text}, (∀ w ∈ t, P w) → ∀ w ∈ u :: t, P w :=
        fun ht => List.forall_mem_cons.mpr ⟨hu, ht⟩
      rw [readQuoted.eq_def]
      by_cases hq : (u == doubleQuote) = true
      · simp only [hq, if_true]
        by_cases hv : (v == doubleQuote) = true
        · simp only [hv, if_true]
          rw [List.forall_mem_cons] at hrest
          exact ih rest.length (by simp only [List.length_cons]; omega) rest rfl _ _ _ (hpush hcell)
            (List.forall_mem_cons.mpr ⟨hrest.1, hpush hraw⟩) hrest.2
        · simp only [hv, Bool.false_eq_true, if_false]
          cases hc : closing? (v :: rest) with
          | some next =>
            exact ⟨by simpa using hcell, closing?_forall hrest hc⟩
          | none =>
            exact ih (v :: rest).length (by simp) (v :: rest) rfl _ _ _ (hpush hcell) (hpush hraw)
              hrest
      · simp only [hq, Bool.false_eq_true, if_false]
        exact ih (v :: rest).length (by simp) (v :: rest) rfl _ _ _ (hpush hcell) (hpush hraw) hrest

theorem readCell_forall {line : Text} (h : ∀ u ∈ line, P u) :
    (∀ u ∈ (readCell line).cell, P u) ∧ ∀ u ∈ (readCell line).next.text, P u := by
  cases line with
  | nil => simp [readCell, Continuation.text]
  | cons u rest =>
    rw [readCell]
    split
    · exact readQuoted_forall rest [] [] [] (by simp) (by simp)
        fun v hv => h v (List.mem_cons_of_mem _ hv)
    · refine ⟨fun v (hv : v ∈ (u :: rest).takeWhile (!isSeparator ·)) =>
        h v ((List.takeWhile_sublist _).subset hv), ?_⟩
      exact afterSeparator_forall fun v hv => h v (List.mem_of_mem_drop hv)

/-- The cell just read joins those of its row. -/
theorem forall_cells_append {cells : List Text} {line : Text}
    (hcells : ∀ cell ∈ cells, ∀ u ∈ cell, P u) (hline : ∀ u ∈ line, P u) :
    ∀ cell ∈ cells ++ [(readCell line).cell], ∀ u ∈ cell, P u := by
  intro cell hcell
  rcases List.mem_append.mp hcell with hcell | hcell
  · exact hcells cell hcell
  · rw [List.mem_singleton.mp hcell]
    exact (readCell_forall hline).1

/-- Every unit of a cell of some rows is one of the line that they were read from. -/
theorem readRows_forall (cells : List Text) (faults : List Fault) (line : Text)
    (hcells : ∀ cell ∈ cells, ∀ u ∈ cell, P u) (hline : ∀ u ∈ line, P u) :
    ∀ row ∈ (readRows cells faults line).1, ∀ cell ∈ row, ∀ u ∈ cell, P u := by
  fun_induction readRows cells faults line with
  | case1 cells faults line r cells' faults' rest next ih =>
    have hrest := (readCell_forall hline).2
    rw [show (readCell line).next = .cell rest from next] at hrest
    exact ih (forall_cells_append hcells hline) hrest
  | case2 cells faults line r cells' faults' rest next rows all heq ih =>
    have hrest := (readCell_forall hline).2
    rw [show (readCell line).next = .row rest from next] at hrest
    rw [heq] at ih
    exact List.forall_mem_cons.mpr
      ⟨forall_cells_append hcells hline, ih (by simp) hrest⟩
  | case3 cells faults line r cells' faults' next =>
    exact List.forall_mem_cons.mpr ⟨forall_cells_append hcells hline, by simp⟩

theorem withoutMark_forall {line : Text} (h : ∀ u ∈ line, P u) : ∀ u ∈ withoutMark line, P u := by
  rw [withoutMark]
  split
  · exact fun u hu => h u (List.mem_of_mem_tail hu)
  · exact h

/-- What holds of every unit of a line holds of every unit of its cells. So reading brings up
nothing that was not there. -/
theorem read_forall {line : Text} (h : ∀ u ∈ line, P u) :
    ∀ cell ∈ (read line).cells, ∀ u ∈ cell, P u := by
  have hbody := withoutMark_forall h
  rw [read_eq]
  generalize withoutMark line = body at hbody ⊢
  have hrows := readRows_forall [] [] body (by simp) hbody
  split
  · simp
  · cases hread : readRows [] [] body with
    | mk rows faults =>
      rw [hread] at hrows
      cases rows with
      | nil => simp
      | cons row rows => exact hrows row List.mem_cons_self

end

/-! ## Lines without quotes -/

theorem faults_readCell_of_not_mem {line : Text} (h : ∀ u ∈ line, u ≠ doubleQuote) :
    (readCell line).faults = [] := by
  cases line with
  | nil => rfl
  | cons u rest => rw [readCell, if_neg (by simpa using h u List.mem_cons_self)]

theorem faults_readRows_of_not_mem (cells : List Text) (faults : List Fault) (line : Text)
    (h : ∀ u ∈ line, u ≠ doubleQuote) : (readRows cells faults line).2 = faults := by
  fun_induction readRows cells faults line with
  | case1 cells faults line r cells' faults' rest next ih =>
    have hrest := (readCell_forall h).2
    rw [show (readCell line).next = .cell rest from next] at hrest
    rw [ih hrest]
    show faults ++ (readCell line).faults = faults
    rw [faults_readCell_of_not_mem h, List.append_nil]
  | case2 cells faults line r cells' faults' rest next rows all heq ih =>
    have hrest := (readCell_forall h).2
    rw [show (readCell line).next = .row rest from next] at hrest
    have hall := ih hrest
    rw [heq] at hall
    rw [show all = faults ++ (readCell line).faults from hall, faults_readCell_of_not_mem h,
      List.append_nil]
  | case3 cells faults line r cells' faults' next =>
    show faults ++ (readCell line).faults = faults
    rw [faults_readCell_of_not_mem h, List.append_nil]

/-- A line without quotes has no fault, as only quoted cells are looked at for one. -/
theorem faults_read_of_not_mem {line : Text} (h : ∀ u ∈ line, u ≠ doubleQuote) :
    (read line).faults = [] := by
  have hbody := withoutMark_forall h
  rw [read_eq]
  generalize withoutMark line = body at hbody ⊢
  split
  · rfl
  · exact faults_readRows_of_not_mem [] [] body hbody

end MetadataBlock.Row
