import MetadataBlock.Proofs.Numeral

/-!
# Decoding cells

What a cell decodes to, case by case, and what is left of a cell that is decoded
and rendered again.

- `Decodes`, `decodes_parse`: the five ways in which a cell is decoded;
- `parse_of_truth`, `parse_ofInt`: the cells of truth values and of safe integers;
- `KeepsText`, `keepsText_render_parse`: decoding changes at most the letter case
  of a truth value, the cell `-0` apart;
- `decoded`, `same_decoded_parse`: a decoded cell is decoded the same once more;
- `text?_of_decoded_blank`, `isAllBlank_of_text?_parse`: blank texts come from blank
  cells, and from no other value.
-/

namespace MetadataBlock.Cell

open Text (ofInt isDigit unit)

/-! ## Numerals -/

/-- The numeral of a safe integer is read as this integer: its digits have no superfluous zero
in front, and they are at most as large as they may be. -/
theorem number?_ofInt {n : Int} (h : n.natAbs ≤ Number.maxSafe) :
    number? (ofInt n) = some (.whole n) := by
  cases n with
  | ofNat n =>
    -- a numeral that begins with a digit has no sign
    have hsign : ((Text.ofNat n).head? == some (unit '-')) = false := by
      obtain ⟨u, t, ht⟩ := List.exists_cons_of_ne_nil (Text.ofNat_ne_nil n)
      have hu : isDigit u = true := Text.ofNat_forall n u (ht ▸ List.mem_cons_self)
      rw [ht, List.head?_cons, beq_eq_false_iff_ne]
      intro e
      rw [Option.some.inj e] at hu
      exact absurd hu (by decide)
    have hsafe : ¬ Number.maxSafe < n := Nat.not_lt.mpr h
    simp only [number?, ofInt, hsign, Bool.false_eq_true, if_false,
      Text.isCanonicalDigits_ofNat, if_true, Text.natOfDigits_ofNat, hsafe]
    rfl
  | negSucc n =>
    have hsafe : ¬ Number.maxSafe < n + 1 := Nat.not_lt.mpr h
    simp only [number?, ofInt, List.head?_cons, beq_self_eq_true, if_true, List.tail_cons,
      Text.isCanonicalDigits_ofNat, Text.natOfDigits_ofNat, hsafe, if_false, Nat.succ_ne_zero]
    rfl

/-- Only canonical numerals of safe integers are numbers, and minus zero. The digits behind the
sign spell one natural number, and it decides which of the cases holds. -/
theorem eq_of_number?_eq_some {c : Text} {m : Number} (h : number? c = some m) :
    (c = "-0" ∧ m = .negZero) ∨
      ∃ n : Int, n.natAbs ≤ Number.maxSafe ∧ c = ofInt n ∧ m = .whole n := by
  by_cases hsign : (c.head? == some (unit '-')) = true
  · obtain ⟨t, rfl⟩ : ∃ t, c = unit '-' :: t := by
      cases c with
      | nil => cases hsign
      | cons u t => exact ⟨t, by rw [Option.some.inj (eq_of_beq hsign)]⟩
    simp only [number?, List.head?_cons, beq_self_eq_true, if_true, List.tail_cons] at h
    split at h
    · next hdigits =>
      have hnumeral := Text.ofNat_natOfDigits hdigits
      generalize Text.natOfDigits t = n at h hnumeral
      subst hnumeral
      split at h
      · cases h
      · next hsafe =>
        cases n with
        | zero =>
          cases h
          -- a sign in front of zero is the one numeral whose number is not whole
          refine .inl ⟨?_, rfl⟩
          rw [Text.ofNat_of_lt (by decide)]
          decide
        | succ n =>
          cases h
          exact .inr ⟨Int.negSucc n, Nat.not_lt.mp hsafe, rfl, rfl⟩
    · cases h
  · simp only [number?, hsign, Bool.false_eq_true, if_false] at h
    split at h
    · next hdigits =>
      have hnumeral := Text.ofNat_natOfDigits hdigits
      generalize Text.natOfDigits c = n at h hnumeral
      subst hnumeral
      split at h
      · cases h
      · next hsafe =>
        cases h
        exact .inr ⟨Int.ofNat n, Nat.not_lt.mp hsafe, rfl, rfl⟩
    · cases h

theorem lowerAscii_eq_self {c : Text} (h : ∀ u ∈ c, Text.lowerUnit u = u) :
    Text.lowerAscii c = c :=
  (List.map_congr_left h).trans (List.map_id c)

/-- A cell that is a number is in lower case already, as it consists of digits and a sign. So
it is no truth value, and the order in which the two are tried does not matter. -/
theorem lowerAscii_of_number? {c : Text} {m : Number} (h : number? c = some m) :
    Text.lowerAscii c = c := by
  have hforall : ∀ u ∈ c, isDigit u = true ∨ u = unit '-' := by
    rcases eq_of_number?_eq_some h with ⟨rfl, -⟩ | ⟨n, -, rfl, -⟩
    · exact List.forall_mem_cons.mpr ⟨.inr rfl, List.forall_mem_singleton.mpr (.inl rfl)⟩
    · exact Text.ofInt_forall n
  refine lowerAscii_eq_self fun u hu => ?_
  rcases hforall u hu with hdigit | rfl
  · have hle := (Text.isDigit_iff.mp hdigit).2
    rw [Text.lowerUnit, if_neg]
    rw [Bool.and_eq_true, decide_eq_true_iff, UInt16.le_iff_toNat_le]
    rintro ⟨hge, -⟩
    exact absurd (Nat.le_trans hge hle) (by decide)
  · rfl

/-! ## Cells -/

/-- The spelling of a truth value in lower case. -/
def truthText (b : Bool) : Text := if b then "true" else "false"

/-- The five ways in which a cell is decoded. -/
inductive Decodes : Text → Scalar → Prop where
  | empty : Decodes [] .null
  | truth {c : Text} (b : Bool) (h : Text.lowerAscii c = truthText b) : Decodes c (.bool b)
  | negZero : Decodes "-0" (.number .negZero)
  | whole {n : Int} (h : n.natAbs ≤ Number.maxSafe) : Decodes (ofInt n) (.number (.whole n))
  | text {c : Text} (hne : c ≠ []) (h : parse c = .text c) : Decodes c (.text c)

theorem parse_of_truth {c : Text} (b : Bool) (h : Text.lowerAscii c = truthText b) :
    parse c = .bool b := by
  have hne : c.isEmpty = false := by
    cases c with
    | nil => cases b <;> exact absurd h (by decide)
    | cons => rfl
  cases b with
  | true =>
    have htrue : (Text.lowerAscii c == "true") = true := beq_iff_eq.mpr h
    simp only [parse, hne, Bool.false_eq_true, if_false, htrue, if_true]
  | false =>
    have htrue : (Text.lowerAscii c == "true") = false := by rw [h]; decide
    have hfalse : (Text.lowerAscii c == "false") = true := beq_iff_eq.mpr h
    simp only [parse, hne, Bool.false_eq_true, if_false, htrue, hfalse, if_true]

/-- A cell that is a number is decoded to it, as it is no truth value. -/
theorem parse_of_number? {c : Text} {m : Number} (h : number? c = some m) :
    parse c = .number m := by
  have hne : c.isEmpty = false := by
    cases c with
    | nil => cases h
    | cons => rfl
  have hword : ∀ b, (Text.lowerAscii c == truthText b) = false := by
    intro b
    rw [lowerAscii_of_number? h, beq_eq_false_iff_ne]
    rintro rfl
    cases b <;> cases h
  have htrue : (Text.lowerAscii c == "true") = false := hword true
  have hfalse : (Text.lowerAscii c == "false") = false := hword false
  simp only [parse, hne, Bool.false_eq_true, if_false, htrue, hfalse, h]

theorem parse_ofInt {n : Int} (h : n.natAbs ≤ Number.maxSafe) :
    parse (ofInt n) = .number (.whole n) :=
  parse_of_number? (number?_ofInt h)

/-- Every cell is decoded in one of the five ways. The questions are asked in the order of the
decoder, and what has been ruled out before is used for the next one. -/
theorem decodes_parse (c : Text) : Decodes c (parse c) := by
  by_cases hnil : c = []
  · subst hnil
    exact .empty
  by_cases htrue : Text.lowerAscii c = truthText true
  · rw [parse_of_truth true htrue]
    exact .truth true htrue
  by_cases hfalse : Text.lowerAscii c = truthText false
  · rw [parse_of_truth false hfalse]
    exact .truth false hfalse
  cases hnumber : number? c with
  | some m =>
    rw [parse_of_number? hnumber]
    -- a number is read from its own numeral only, so the cell is known again
    rcases eq_of_number?_eq_some hnumber with ⟨rfl, rfl⟩ | ⟨n, hsafe, rfl, rfl⟩
    · exact .negZero
    · exact .whole hsafe
  | none =>
    have hparse : parse c = .text c := by
      have h₁ : c.isEmpty = false := List.isEmpty_eq_false_iff.mpr hnil
      have h₂ : (Text.lowerAscii c == "true") = false := beq_eq_false_iff_ne.mpr htrue
      have h₃ : (Text.lowerAscii c == "false") = false := beq_eq_false_iff_ne.mpr hfalse
      simp only [parse, h₁, Bool.false_eq_true, if_false, h₂, h₃, hnumber]
    rw [hparse]
    exact .text hnil hparse

/-! ## Rendering what was decoded -/

theorem render_whole {n : Int} (h : n.natAbs ≤ Number.maxSafe) :
    render (.number (.whole n)) = ofInt n := by
  show Number.text (.whole n) = _
  rw [Number.text, if_pos h]

/-- A cell and its text after decoding: the same but for the letter case of a truth
value. Nothing is said of the cell `-0`. -/
def KeepsText (c c' : Text) : Prop :=
  c ≠ "-0" →
    c' = c ∨ (Text.lowerAscii c = "true" ∧ c' = "TRUE") ∨
      (Text.lowerAscii c = "false" ∧ c' = "FALSE")

/-- Decoding and rendering a cell keeps its text. Of the five ways only the truth values are
written in another spelling, and minus zero is left out. -/
theorem keepsText_render_parse (c : Text) : KeepsText c (render (parse c)) := by
  intro hminus
  have h := decodes_parse c
  generalize parse c = v at h ⊢
  cases h with
  | empty => exact .inl rfl
  | truth b h =>
    cases b with
    | true => exact .inr (.inl ⟨h, rfl⟩)
    | false => exact .inr (.inr ⟨h, rfl⟩)
  | negZero => exact absurd rfl hminus
  | whole h => exact .inl (render_whole h)
  | text => exact .inl rfl

/-- The value that a scalar has after it was rendered and decoded. -/
def decoded (v : Scalar) : Scalar := parse (render v)

theorem same_refl_of_ne_nan {v : Scalar} (h : v ≠ .number .nan) : v.same v = true := by
  cases v with
  | null => rfl
  | bool b => exact beq_self_eq_true b
  | number n =>
    have hn : n ≠ .nan := fun e => h (e ▸ rfl)
    show (n != .nan && n.unsigned == n.unsigned) = true
    rw [bne_iff_ne.mpr hn, beq_self_eq_true, Bool.and_self]
  | text t => exact beq_self_eq_true t

/-- What was decoded once is decoded the same again. Rendering keeps the text but for truth
values and minus zero, and these are decoded to the same value from either spelling. -/
theorem same_decoded_parse (c : Text) : (decoded (parse c)).same (parse c) = true := by
  have h := decodes_parse c
  rw [decoded]
  generalize hv : parse c = v at h ⊢
  -- a value is written as the cell that it was decoded from, except for zero with a sign
  cases h with
  | empty => rfl
  | truth b _ =>
    rw [show parse (render (.bool b)) = .bool b by cases b <;> decide]
    exact same_refl_of_ne_nan (by simp)
  | negZero => decide
  | whole h =>
    rw [render_whole h, parse_ofInt h]
    exact same_refl_of_ne_nan (by simp)
  | text hne h =>
    show (parse c).same (.text c) = true
    rw [h]
    exact same_refl_of_ne_nan (by simp)

/-- Decoding again does not change how a value reads. -/
theorem text?_decoded_parse (c : Text) : (decoded (parse c)).text? = (parse c).text? := by
  have h := decodes_parse c
  rw [decoded]
  generalize hv : parse c = v at h ⊢
  cases h with
  | empty => rfl
  | truth b _ => cases b <;> decide
  | negZero => decide +kernel
  | whole h => rw [render_whole h, parse_ofInt h]
  | text hne h => exact congrArg Scalar.text? h

theorem isAllBlank_ofInt (n : Int) : Text.isAllBlank (ofInt n) = false := by
  obtain ⟨u, t, ht⟩ := List.exists_cons_of_ne_nil (Text.ofInt_ne_nil n)
  have hu : Text.isBlank u = false := by
    rcases Text.ofInt_forall n u (ht ▸ List.mem_cons_self) with hdigit | rfl
    · exact Text.isBlank_of_isDigit hdigit
    · decide
  rw [ht, Text.isAllBlank, List.all_cons, hu, Bool.false_and]

/-- A blank text is only decoded from a scalar that reads as this text. Words and numerals are
not blank, so the cell was taken over as it stood, and only a text is written like that. -/
theorem text?_of_decoded_blank {v : Scalar} {t : Text} (h : (decoded v).text? = some t)
    (hblank : Text.isAllBlank t = true) : v.text? = some t := by
  have hcell := decodes_parse (render v)
  rw [decoded] at h
  generalize parse (render v) = w at h hcell
  generalize hc : render v = c at hcell
  cases hcell with
  | empty => cases h
  | truth b _ =>
    cases b <;> (cases h; exact absurd hblank (by decide))
  | negZero =>
    cases h
    exact absurd hblank (by decide +kernel)
  | whole hsafe =>
    rw [Scalar.text?, ← show render (.number _) = Number.text _ from rfl, render_whole hsafe] at h
    cases h
    rw [isAllBlank_ofInt] at hblank
    cases hblank
  | text hne _ =>
    cases h
    -- null shows nothing and truth values are not blank; other values read as they are written
    cases v with
    | null => exact absurd hc.symm hne
    | bool b =>
      subst hc
      cases b <;> exact absurd hblank (by decide)
    | number n => exact congrArg some hc
    | text t => exact congrArg some hc

/-- White space has no letter case. -/
theorem lowerUnit_of_isBlank {u : UInt16} (h : Text.isBlank u = true) : Text.lowerUnit u = u := by
  rw [Text.lowerUnit, if_neg]
  rintro hletter
  simp only [Bool.and_eq_true, decide_eq_true_eq, UInt16.le_iff_toNat_le] at hletter
  simp only [Text.isBlank, Bool.or_eq_true, Bool.and_eq_true, decide_eq_true_eq, beq_iff_eq,
    UInt16.le_iff_toNat_le, ← UInt16.toNat_inj] at h
  obtain ⟨hlow, hhigh⟩ := hletter
  simp at hlow hhigh h
  omega

/-- A blank cell is decoded to a blank text, or to none: truth values and numerals hold
something that is not white space. -/
theorem isAllBlank_of_text?_parse {c t : Text} (hblank : Text.isAllBlank c = true)
    (h : (parse c).text? = some t) : Text.isAllBlank t = true := by
  have hcell := decodes_parse c
  generalize parse c = w at h hcell
  cases hcell with
  | empty => cases h
  | truth b hlower =>
    have hsame : Text.lowerAscii c = c :=
      lowerAscii_eq_self fun u hu => lowerUnit_of_isBlank (List.all_eq_true.mp hblank u hu)
    rw [← hsame, hlower] at hblank
    cases b <;> exact absurd hblank (by decide)
  | negZero => exact absurd hblank (by decide)
  | whole hsafe =>
    rw [isAllBlank_ofInt] at hblank
    cases hblank
  | text hne _ =>
    cases h
    exact hblank

/-- A cell that is not empty is decoded to a text that is not empty. -/
theorem exists_text?_parse {c : Text} (hne : c ≠ []) : ∃ t, t ≠ [] ∧ (parse c).text? = some t := by
  have hcell := decodes_parse c
  generalize parse c = w at hcell ⊢
  cases hcell with
  | empty => exact absurd rfl hne
  | truth b _ => cases b <;> exact ⟨_, by decide, rfl⟩
  | negZero => exact ⟨_, by decide +kernel, rfl⟩
  | @whole n hsafe =>
    refine ⟨_, ?_, rfl⟩
    rw [← show render (.number (.whole n)) = Number.text _ from rfl, render_whole hsafe]
    exact Text.ofInt_ne_nil n
  | text hne _ => exact ⟨_, hne, rfl⟩

/-- Decoding again does not change whether a value is a certain truth value, as equal values
are the same truth value. -/
theorem decoded_parse_eq_bool_iff {c : Text} {b : Bool} :
    decoded (parse c) = .bool b ↔ parse c = .bool b := by
  have hsame := same_decoded_parse c
  constructor
  · intro h
    rw [h] at hsame
    cases hv : parse c with
    | bool b' =>
      rw [hv] at hsame
      rw [eq_of_beq hsame]
    | null => rw [hv] at hsame; cases hsame
    | number n => rw [hv] at hsame; cases hsame
    | text t => rw [hv] at hsame; cases hsame
  · intro h
    rw [h]
    cases b <;> decide

/-- Decoding puts no line feed into a cell. -/
theorem lineFeed_not_mem_render_parse {c : Text} (h : Text.lineFeed ∉ c) :
    Text.lineFeed ∉ render (parse c) := by
  have hcell := decodes_parse c
  generalize parse c = w at hcell ⊢
  cases hcell with
  | empty => exact List.not_mem_nil
  | truth b _ => cases b <;> decide
  | negZero => decide +kernel
  | whole hsafe =>
    rw [render_whole hsafe]
    exact h
  | text _ _ => exact h

end MetadataBlock.Cell
