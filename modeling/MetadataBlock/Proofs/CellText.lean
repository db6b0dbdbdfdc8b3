import MetadataBlock.Proofs.CellDecoding
import MetadataBlock.Proofs.IntegerDigits
import MetadataBlock.Proofs.IntegerRounding

/-!
# The text of a cell

Decoding a cell and rendering it again gives the cell back, except for truth values,
which have a spelling of their own, and for `-0`. Cells are numbers by a test on their
text and a test on the number after rounding; the second one refuses all integers that
rounding changes.

- `number?_eq_rounded`: the number of a cell against the numeral's rounding;
- `KeepsCell`: what a cell keeps when it is decoded;
- `keepsCell_iff`: all cells but one.
-/

namespace MetadataBlock.Cell

open Text (unit)

/-! ## Numerals and their rounding -/

/-- The cell is a numeral without superfluous zeros in front, with or without a minus sign. -/
def isNumeral (c : Text) : Bool :=
  isCanonicalDigits (if c.head? == some (unit '-') then c.tail else c)

/-- Of the integers that digits spell, those that are safe after rounding were safe before.
Rounding keeps a safe integer, and takes a larger one to a number that is not safe either. -/
theorem filter_isSafe_ofDecimal (negative : Bool) (n : Nat) :
    (some (Number.ofDecimal negative n 0)).filter Number.isSafe
      = if Number.maxSafe < n then none
        else some (if n = 0 then (if negative then .negZero else .whole 0)
          else .whole (Number.signed negative n)) := by
  split
  · next h =>
    rw [Option.filter_some, Number.isSafe_ofDecimal_zero negative h]
    rfl
  · next h =>
    have hsafe := Nat.not_lt.mp h
    rw [Number.ofDecimal_zero_of_le_maxSafe negative hsafe, Option.filter_some]
    by_cases hzero : n = 0
    · rw [if_pos hzero, hzero, Number.ofRatio_zero]
      cases negative <;> rfl
    · have hkept : (Number.whole (Number.signed negative n)).isSafe = true := by
        rw [Number.isSafe, Number.natAbs_signed]
        exact decide_eq_true hsafe
      rw [if_neg hzero, Number.ofRatio_of_le_maxSafe negative hzero hsafe, if_pos hkept]

/-- A cell is read as the number that its numeral is rounded to, if this number is safe. The
sign is read apart from the digits on both sides, and for the digits it is the same test before
and after rounding. -/
theorem number?_eq_rounded (c : Text) :
    number? c = if isNumeral c then (Number.ofText? c).filter Number.isSafe else none := by
  by_cases hsign : (c.head? == some (unit '-')) = true
  · obtain ⟨t, rfl⟩ : ∃ t, c = unit '-' :: t := by
      cases c with
      | nil => cases hsign
      | cons u t => exact ⟨t, by rw [Option.some.inj (eq_of_beq hsign)]⟩
    simp only [number?, isNumeral, List.head?_cons, beq_self_eq_true, if_true, List.tail_cons]
    refine ite_congr rfl (fun hdigits => ?_) fun _ => rfl
    obtain ⟨hne, hforall, -⟩ := Text.isCanonicalDigits_iff.mp hdigits
    rw [Number.ofText?_of_minus hne hforall, filter_isSafe_ofDecimal]
    rfl
  · simp only [number?, isNumeral, hsign, Bool.false_eq_true, if_false]
    refine ite_congr rfl (fun hdigits => ?_) fun _ => rfl
    obtain ⟨hne, hforall, -⟩ := Text.isCanonicalDigits_iff.mp hdigits
    rw [Number.ofText?_of_digits hne hforall, filter_isSafe_ofDecimal]
    refine ite_congr rfl (fun _ => rfl) fun _ => congrArg some ?_
    split
    · next hzero => rw [hzero]; rfl
    · rfl

/-! ## What a cell keeps -/

/-- The cell spells a truth value, in any letter case. -/
def SpellsTruth (c : Text) : Prop :=
  ∃ b, Text.lowerAscii c = truthText b

/-- A cell that keeps its text when it is decoded and rendered again, and that is decoded to
a number only if it is the numeral of a safe integer, which the number then is. -/
structure KeepsCell (c : Text) : Prop where
  text : ¬ SpellsTruth c → render (parse c) = c
  number : ∀ m, parse c = .number m
    ↔ ∃ n : Int, n.natAbs ≤ Number.maxSafe ∧ c = Text.ofInt n ∧ m = .whole n

/-- Every other cell is kept. Its text is that of the five ways to decode a cell, and a cell
that is decoded to a number is the numeral of this number. -/
theorem keepsCell_of_ne {c : Text} (hne : c ≠ "-0") : KeepsCell c := by
  refine ⟨fun htruth => ?_, fun m => ⟨fun h => ?_, ?_⟩⟩
  · rcases keepsText_render_parse c hne with heq | ⟨htrue, -⟩ | ⟨hfalse, -⟩
    · exact heq
    · exact absurd ⟨true, htrue⟩ htruth
    · exact absurd ⟨false, hfalse⟩ htruth
  · have hcell := decodes_parse c
    rw [h] at hcell
    cases hcell with
    | negZero => exact absurd rfl hne
    | whole hsafe => exact ⟨_, hsafe, rfl, rfl⟩
  · rintro ⟨n, hsafe, rfl, rfl⟩
    exact parse_ofInt hsafe

theorem not_spellsTruth_negZero : ¬ SpellsTruth "-0" := by
  rintro ⟨b, h⟩
  cases b <;> exact absurd h (by decide)

theorem render_parse_negZero : render (parse "-0") = "0" := by decide +kernel

/-- The numeral of minus zero is no word for a truth value, and it is rendered as `0`. -/
theorem not_keepsCell : ¬ KeepsCell "-0" := by
  intro h
  have htext := h.text not_spellsTruth_negZero
  rw [render_parse_negZero] at htext
  exact absurd htext (by decide)

/-- A cell is kept exactly if it is not the numeral of minus zero. The number of a numeral is
what it is rounded to: rounding brings no numeral back among the safe integers. The text of
an integer is the shortest decimal that is rounded to it. -/
theorem keepsCell_iff (c : Text) :
    (KeepsCell c ↔ c ≠ "-0") ∧
      number? c = (if isNumeral c then (Number.ofText? c).filter Number.isSafe else none) ∧
      ∀ n : Int, render (.number (.whole n)) = Number.shortestText n := by
  refine ⟨⟨?_, keepsCell_of_ne⟩, number?_eq_rounded c, Number.text_whole_eq⟩
  rintro h rfl
  exact not_keepsCell h

/-- The one numeral that is not written as it stands: its number is zero, which has no sign in
a table. -/
theorem negZero_loses_sign :
    parse "-0" = .number .negZero ∧ render (parse "-0") = "0" ∧ ¬ SpellsTruth "-0"
      ∧ ¬ KeepsCell "-0" :=
  ⟨by decide +kernel, render_parse_negZero, not_spellsTruth_negZero, not_keepsCell⟩

end MetadataBlock.Cell
