import MetadataBlock.Proofs.Numeral
import MetadataBlock.Report.Style

/-!
# Styled text shows its text

A line may hold control sequences, which set a style and are not shown. Styling puts them
in front of a text, behind it, around its line ends and behind those that switch the style
off; what is left without them is the text.

- `Shows`: the text that a line shows; `shows_refl`, `Shows.append`;
- `shows_addBehind`, `Shows.aroundLineEnds`: the two places where styling puts control
  sequences into a text;
- `Paints`, `paints_paint`: styled text shows its text, and without colours it is the text.
-/

namespace MetadataBlock

open Text (unit lineFeed carriageReturn)

/-- The text that a line shows. A control sequence is the unit `0x1B`, a bracket, digits and
the letter `m`; it is not shown. -/
inductive Shows : Text → Text → Prop
  | nil : Shows [] []
  | shown {line text : Text} (u : UInt16) (hrest : Shows line text) : Shows (u :: line) (u :: text)
  | control {digits line text : Text} (hdigits : ∀ u ∈ digits, Text.isDigit u = true)
    (hrest : Shows line text) : Shows (0x1B :: unit '[' :: digits ++ unit 'm' :: line) text

theorem shows_refl (t : Text) : Shows t t := by
  induction t with
  | nil => exact .nil
  | cons u t ih => exact .shown u ih

/-- Two lines in a row show their texts in a row. A control sequence stands in one of them as a
whole. -/
theorem Shows.append {line line' text text' : Text} (h : Shows line text)
    (h' : Shows line' text') : Shows (line ++ line') (text ++ text') := by
  induction h with
  | nil => exact h'
  | shown u _ ih => exact .shown u ih
  | control hdigits _ ih =>
    have hline := Shows.control hdigits ih
    simpa only [List.cons_append, List.append_assoc] using hline

/-- The sequence of a number is not shown. -/
theorem Shows.controlled {line text : Text} (n : Nat) (h : Shows line text) :
    Shows (Style.control n ++ line) text := by
  have hline := Shows.control (Text.ofNat_forall n) h
  simpa only [Style.control, List.cons_append, List.append_assoc, List.nil_append] using hline

namespace Style

/-- A style is switched on by the sequence of a number, and off by another one. Nothing else
about the numbers is needed. -/
theorem exists_on_off (s : Style) : ∃ m n, s.on = control m ∧ s.off = control n := by
  cases s with
  | red => exact ⟨31, 39, rfl, rfl⟩
  | green => exact ⟨32, 39, rfl, rfl⟩
  | yellow => exact ⟨33, 39, rfl, rfl⟩
  | cyan => exact ⟨36, 39, rfl, rfl⟩
  | bold => exact ⟨1, 22, rfl, rfl⟩
  | dim => exact ⟨2, 22, rfl, rfl⟩

variable {line text : Text}

theorem shows_on_append (s : Style) (h : Shows line text) : Shows (s.on ++ line) text := by
  obtain ⟨m, n, hon, -⟩ := s.exists_on_off
  rw [hon]
  exact h.controlled m

theorem shows_off_append (s : Style) (h : Shows line text) : Shows (s.off ++ line) text := by
  obtain ⟨m, n, -, hoff⟩ := s.exists_on_off
  rw [hoff]
  exact h.controlled n

/-- A style that is switched on again shows nothing, however often this happens: only control
sequences are added. -/
theorem shows_addBehind (s : Style) (fuel : Nat) (t : Text) :
    Shows (addBehind s.off s.on fuel t) t := by
  fun_induction addBehind s.off s.on fuel t with
  | case1 t => exact shows_refl t
  | case2 => exact .nil
  | case3 fuel u rest hprefix ih =>
    have hsplit : s.off ++ (u :: rest).drop s.off.length = u :: rest := by
      obtain ⟨back, hback⟩ := List.isPrefixOf_iff_prefix.mp hprefix
      rw [← hback, List.drop_left]
    have hline := (shows_refl s.off).append (s.shows_on_append ih)
    rwa [hsplit, ← List.append_assoc] at hline
  | case4 fuel u rest _ ih => exact .shown u ih

/-! ## Line ends -/

theorem aroundLineEnds_lineFeed (s : Style) (t : Text) :
    s.aroundLineEnds (lineFeed :: t) = s.off ++ (lineFeed :: (s.on ++ s.aroundLineEnds t)) := by
  have hcarriage : (lineFeed == carriageReturn) = false := by decide
  cases t with
  | nil => simp [aroundLineEnds]
  | cons v t => simp [aroundLineEnds, hcarriage]

theorem aroundLineEnds_carriageReturn (s : Style) (t : Text) :
    s.aroundLineEnds (carriageReturn :: lineFeed :: t)
      = s.off ++ (carriageReturn :: lineFeed :: (s.on ++ s.aroundLineEnds t)) := by
  simp [aroundLineEnds]

theorem aroundLineEnds_cons {u : UInt16} (s : Style) {t : Text} (hline : u ≠ lineFeed)
    (hpair : u = carriageReturn → ∀ rest, t ≠ lineFeed :: rest) :
    s.aroundLineEnds (u :: t) = u :: s.aroundLineEnds t := by
  cases t with
  | nil => simp [aroundLineEnds, hline]
  | cons v t =>
    have hboth : ¬ (u = carriageReturn ∧ v = lineFeed) := by
      rintro ⟨hu, rfl⟩
      exact hpair hu t rfl
    simp [aroundLineEnds, hline, hboth]

/-- In front of a text without line ends nothing changes. This carries the sequences themselves
past the search for line ends. -/
theorem aroundLineEnds_append (s : Style) {front : Text} (t : Text)
    (h : ∀ u ∈ front, u ≠ lineFeed ∧ u ≠ carriageReturn) :
    s.aroundLineEnds (front ++ t) = front ++ s.aroundLineEnds t := by
  induction front with
  | nil => rfl
  | cons u front ih =>
    rw [List.forall_mem_cons] at h
    rw [List.cons_append, s.aroundLineEnds_cons h.1.1 fun hu => absurd hu h.1.2, ih h.2]
    rfl

theorem ne_lineEnd_of_isDigit {u : UInt16} (h : Text.isDigit u = true) :
    u ≠ lineFeed ∧ u ≠ carriageReturn := by
  refine ⟨?_, ?_⟩
  · rintro rfl
    exact absurd h (by decide)
  · rintro rfl
    exact absurd h (by decide)

end Style

/-- Sequences around the line ends of a line are not shown either. A carriage return belongs
to the line feed behind it, so the induction also says what is shown behind a line feed with
which the line begins. -/
theorem Shows.aroundLineEnds {line text : Text} (s : Style) (h : Shows line text) :
    Shows (s.aroundLineEnds line) text
      ∧ ∀ rest, line = lineFeed :: rest →
        ∃ shown, text = lineFeed :: shown ∧ Shows (s.aroundLineEnds rest) shown := by
  induction h with
  | nil => exact ⟨.nil, nofun⟩
  | @shown line text u hrest ih =>
    refine ⟨?_, ?_⟩
    · by_cases hfeed : u = lineFeed
      · rw [hfeed, s.aroundLineEnds_lineFeed]
        exact s.shows_off_append (.shown _ (s.shows_on_append ih.1))
      by_cases hpair : u = carriageReturn ∧ ∃ rest, line = lineFeed :: rest
      · obtain ⟨rfl, rest, rfl⟩ := hpair
        obtain ⟨shown, rfl, hshown⟩ := ih.2 rest rfl
        rw [s.aroundLineEnds_carriageReturn]
        exact s.shows_off_append (.shown _ (.shown _ (s.shows_on_append hshown)))
      · rw [s.aroundLineEnds_cons hfeed fun hu rest hline => hpair ⟨hu, rest, hline⟩]
        exact .shown u ih.1
    · rintro rest hline
      obtain ⟨rfl, rfl⟩ := List.cons.inj hline
      exact ⟨text, rfl, ih.1⟩
  | @control digits line text hdigits hrest ih =>
    refine ⟨?_, fun rest hline => absurd (List.cons.inj hline).1 (by decide)⟩
    -- a control sequence holds no line end
    have hfront : ∀ u ∈ 0x1B :: unit '[' :: digits ++ [unit 'm'],
        u ≠ lineFeed ∧ u ≠ carriageReturn := by
      simp only [List.cons_append, List.forall_mem_cons, List.forall_mem_append]
      exact ⟨by decide, by decide, fun u hu => Style.ne_lineEnd_of_isDigit (hdigits u hu),
        by decide, List.forall_mem_nil _⟩
    have hline := s.aroundLineEnds_append line hfront
    simp only [List.cons_append, List.append_assoc, List.nil_append] at hline
    rw [List.cons_append, List.cons_append, hline]
    exact .control hdigits ih.1

/-! ## Styled text -/

/-- A line shows a text, and it is the text itself if there are no colours. -/
structure Paints (color : Bool) (line text : Text) : Prop where
  shows_text : Shows line text
  plain : color = false → line = text

/-- Styled text shows its text. The style is switched on again inside the text first, then
interrupted at the line ends, and then put around the whole. -/
theorem paints_paint (s : Style) (color : Bool) (t : Text) : Paints color (s.paint color t) t := by
  rw [Style.paint]
  split
  · exact ⟨shows_refl t, fun _ => rfl⟩
  · next hcolored =>
    refine ⟨?_, fun hplain => absurd (by rw [hplain]; rfl) hcolored⟩
    have hbody := ((s.shows_addBehind t.length t).aroundLineEnds s).1
    have hend : Shows s.off [] := by
      rw [← List.append_nil s.off]
      exact s.shows_off_append .nil
    have hline := s.shows_on_append (hbody.append hend)
    rwa [List.append_nil, ← List.append_assoc] at hline

/-- A red line is not the text that it shows. -/
example : Shows (Style.red.paint true "no") "no" ∧ Style.red.paint true "no" ≠ "no" :=
  ⟨(paints_paint .red true "no").shows_text, by decide⟩

end MetadataBlock
