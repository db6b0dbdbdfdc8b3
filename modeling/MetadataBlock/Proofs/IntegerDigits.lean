import MetadataBlock.Proofs.IntegerRounding

/-!
# Printing of integers

The shortest decimal that is rounded to an integer of at most 53 bits is the integer's own
numeral. The reals that are rounded to it contain no other integer, so no multiple of a power
of ten comes nearer than a divisor of the integer, and the search stops at the last digit
that is not zero.

- `Rounded.Around`: an interval around one integer;
- `Rounded.admits_iff`, `Rounded.onGrid?_eq`: which multiples of a power of ten are in it;
- `Rounded.exists_go_eq`: the first one that the search finds;
- `dropTrailingZeros_ofNat`, `layOut_ofNat`: its digits;
- `ratioText_one`: the numeral;
- `text_whole_eq`: the text of every integer is its shortest decimal.
-/

namespace MetadataBlock

/-! ## Numerals and powers of ten -/

namespace Text

/-- A numeral ends in its last digit. -/
theorem exists_ofNat_eq_concat (n : Nat) : ∃ front, ofNat n = front ++ [digitUnit (n % 10)] := by
  rcases Nat.lt_or_ge n 10 with h | h
  · exact ⟨[], by rw [ofNat_of_lt h, Nat.mod_eq_of_lt h, List.nil_append]⟩
  · exact ⟨ofNat (n / 10), ofNat_of_le h⟩

/-- A number with `k` digits is less than the power of ten with `k` zeros. Each step takes one
digit and one factor away. -/
theorem lt_pow_length_ofNat (n : Nat) : n < Nat.pow 10 (ofNat n).length := by
  induction n using Nat.strongRecOn with
  | _ n ih =>
    rcases Nat.lt_or_ge n 10 with h | h
    · rw [ofNat_of_lt h]
      exact h
    · have htenth := ih (n / 10) (by omega)
      rw [ofNat_of_le h, List.length_append, List.length_singleton]
      exact (Nat.div_lt_iff_lt_mul (by decide)).mp htenth

/-- Multiplying by a power of ten puts zeros behind the numeral. -/
theorem ofNat_mul_pow {d : Nat} (hd : d ≠ 0) (p : Nat) :
    ofNat (d * Nat.pow 10 p) = ofNat d ++ List.replicate p (unit '0') := by
  induction p with
  | zero =>
    have hone : d * Nat.pow 10 0 = d := Nat.mul_one d
    rw [hone, List.replicate_zero, List.append_nil]
  | succ p ih =>
    have hpow : d * Nat.pow 10 (p + 1) = d * Nat.pow 10 p * 10 := (Nat.mul_assoc _ _ _).symm
    have hpos : 0 < d * Nat.pow 10 p :=
      Nat.mul_pos (Nat.pos_of_ne_zero hd) (Nat.pow_pos (by decide))
    rw [hpow, ofNat_of_le (by omega), Nat.mul_div_cancel _ (by decide), Nat.mul_mod_left, ih,
      List.append_assoc, List.replicate_succ']
    rfl

end Text

namespace Number

open Text (unit)

/-! ## The interval of an integer -/

/-- An interval around an integer that ends before its neighbours. -/
structure Rounded.Around (r : Rounded) (n : Nat) : Prop where
  den_pos : 0 < r.den
  value_eq : r.value = n * r.den
  low_lt : r.low < r.value
  lt_low : r.value < r.low + r.den
  lt_high : r.value < r.high
  high_lt : r.high < r.value + r.den

/-- The reals that are rounded to an integer of at most 53 bits. They reach half a unit to
either side, and the unit is at most one, so they end before its neighbours. -/
theorem around_ofScaled {n : Nat} (h : n ≠ 0) (k : Nat) :
    (Rounded.ofScaled (n * Nat.pow 2 k) (-(k : Int))).Around n := by
  have hup : Nat.pow 2 (-(k : Int)).toNat = 1 := by
    rw [show (-(k : Int)).toNat = 0 by omega]
  have hdown : (-(-(k : Int))).toNat = k := by omega
  have hunit := pow_pos k
  have hpos : 0 < n * Nat.pow 2 k := Nat.mul_pos (Nat.pos_of_ne_zero h) hunit
  -- the lower end is one or two quarters of the unit below the value
  obtain ⟨below, hbelow, hlow⟩ : ∃ below, (below = 1 ∨ below = 2)
      ∧ (Rounded.ofScaled (n * Nat.pow 2 k) (-(k : Int))).low = 4 * (n * Nat.pow 2 k) - below := by
    simp only [Rounded.ofScaled, hup, Nat.mul_one]
    split
    · exact ⟨1, .inl rfl, rfl⟩
    · exact ⟨2, .inr rfl, rfl⟩
  have hvalue : (Rounded.ofScaled (n * Nat.pow 2 k) (-(k : Int))).value = 4 * (n * Nat.pow 2 k) := by
    simp only [Rounded.ofScaled, hup, Nat.mul_one]
  have hhigh : (Rounded.ofScaled (n * Nat.pow 2 k) (-(k : Int))).high
      = 4 * (n * Nat.pow 2 k) + 2 := by
    simp only [Rounded.ofScaled, hup, Nat.mul_one]
  have hden : (Rounded.ofScaled (n * Nat.pow 2 k) (-(k : Int))).den = 4 * Nat.pow 2 k := by
    simp only [Rounded.ofScaled, hdown]
  exact
    { den_pos := by omega
      value_eq := by rw [hvalue, hden, Nat.mul_left_comm]
      low_lt := by omega
      lt_low := by omega
      lt_high := by omega
      high_lt := by omega }

section

variable {r : Rounded} {n : Nat}

/-- Of the integers only the one is in the interval around it: one that is further away is at
least a whole denominator away. -/
theorem Rounded.Around.eq_of_le (h : r.Around n) {x : Nat} (hlow : r.low ≤ x * r.den)
    (hhigh : x * r.den ≤ r.high) : x = n := by
  have hvalue := h.value_eq
  have hbelow : n * r.den < (x + 1) * r.den := by
    rw [Nat.add_mul, Nat.one_mul]
    have := h.lt_low
    omega
  have habove : x * r.den < (n + 1) * r.den := by
    rw [Nat.add_mul, Nat.one_mul]
    have := h.high_lt
    omega
  have hlt := Nat.lt_of_mul_lt_mul_right hbelow
  have hgt := Nat.lt_of_mul_lt_mul_right habove
  omega

/-- The multiple of a power of ten that is admitted is the integer itself. The power is not
negative, so every multiple is an integer. -/
theorem Rounded.Around.admits_iff (h : r.Around n) {d p : Nat} :
    r.admits d (p : Int) = true ↔ d * Nat.pow 10 p = n := by
  have hscale : Nat.pow 10 (-(p : Int)).toNat = 1 := by
    rw [show (-(p : Int)).toNat = 0 by omega]
  have hvalue := h.value_eq
  have hlow := h.low_lt
  have hhigh := h.lt_high
  simp only [Rounded.admits, hscale, Int.toNat_natCast, Nat.mul_one]
  constructor
  · intro hin
    split at hin
    · simp only [Bool.and_eq_true, decide_eq_true_eq] at hin
      exact h.eq_of_le hin.1 hin.2
    · simp only [Bool.and_eq_true, decide_eq_true_eq] at hin
      exact h.eq_of_le (Nat.le_of_lt hin.1) (Nat.le_of_lt hin.2)
  · intro hd
    rw [hd, ← hvalue]
    split
    · simp only [Bool.and_eq_true, decide_eq_true_eq]
      omega
    · simp only [Bool.and_eq_true, decide_eq_true_eq]
      omega

/-- Among the multiples of a power of ten the integer is found, if it is one of them. The two
multiples next to it are tried, and only an exact one is admitted. -/
theorem Rounded.Around.onGrid?_eq (h : r.Around n) (p : Nat) :
    r.onGrid? (p : Int)
      = if n % Nat.pow 10 p = 0 then some (n / Nat.pow 10 p) else none := by
  have hscale : Nat.pow 10 (-(p : Int)).toNat = 1 := by
    rw [show (-(p : Int)).toNat = 0 by omega]
  have hbelow : r.value / (Nat.pow 10 p * r.den) = n / Nat.pow 10 p := by
    rw [h.value_eq, Nat.mul_div_mul_right _ _ h.den_pos]
  have hten : 0 < Nat.pow 10 p := Nat.pow_pos (by decide)
  have hdivmod := Nat.div_add_mod' n (Nat.pow 10 p)
  simp only [Rounded.onGrid?, hscale, Nat.mul_one, Int.toNat_natCast, hbelow]
  -- the next multiple is larger than the integer
  have habove : r.admits (n / Nat.pow 10 p + 1) (p : Int) = false := by
    rw [← Bool.not_eq_true, h.admits_iff, Nat.add_mul, Nat.one_mul]
    have := Nat.mod_lt n hten
    omega
  by_cases hmod : n % Nat.pow 10 p = 0
  · have hadmits : r.admits (n / Nat.pow 10 p) (p : Int) = true := by
      rw [h.admits_iff]
      omega
    rw [if_pos hmod, hadmits, habove]
  · have hadmits : r.admits (n / Nat.pow 10 p) (p : Int) = false := by
      rw [← Bool.not_eq_true, h.admits_iff]
      omega
    rw [if_neg hmod, hadmits, habove]

/-! ## The search -/

/-- The search ends with the integer over the largest power of ten that is tried and divides
it. The powers get smaller with every step, so the induction is on the fuel; it suffices since
one divides everything. -/
theorem Rounded.Around.exists_go_eq (h : r.Around n) {point : Nat} :
    ∀ fuel j, j ≤ point → point < fuel + j →
      ∃ d p : Nat, Rounded.shortest.go r point fuel j = (d, (p : Int)) ∧ d * Nat.pow 10 p = n
        ∧ (p + 1 + j ≤ point → n % Nat.pow 10 (p + 1) ≠ 0) := by
  intro fuel
  induction fuel with
  | zero => intro j hj hfuel; omega
  | succ fuel ih =>
    intro j hj hfuel
    obtain ⟨p, hp⟩ : ∃ p, p + j = point := ⟨point - j, by omega⟩
    have hgrid : (point : Int) - j = p := by omega
    have hfound := h.onGrid?_eq p
    rw [Rounded.shortest.go, hgrid, hfound]
    by_cases hmod : n % Nat.pow 10 p = 0
    · rw [if_pos hmod]
      refine ⟨n / Nat.pow 10 p, p, rfl, Nat.div_mul_cancel (Nat.dvd_of_mod_eq_zero hmod), ?_⟩
      omega
    · rw [if_neg hmod]
      -- the power with exponent zero divides everything, so it was not the last one
      have hj' : j ≠ point := by
        rintro rfl
        have hzero : p = 0 := by omega
        rw [hzero] at hmod
        exact hmod (Nat.mod_one n)
      obtain ⟨d, p', hgo, hd, hlast⟩ := ih (j + 1) (by omega) (by omega)
      refine ⟨d, p', hgo, hd, fun hle => ?_⟩
      rcases Nat.lt_or_ge (p' + 1) p with hlt | hge
      · exact hlast (by omega)
      · rw [show p' + 1 = p by omega]
        exact hmod

end

/-! ## The digits -/

/-- A numeral whose last digit is not zero has no trailing zeros. -/
theorem dropTrailingZeros_ofNat {d : Nat} (h : d % 10 ≠ 0) :
    dropTrailingZeros (Text.ofNat d) = Text.ofNat d := by
  obtain ⟨front, hfront⟩ := Text.exists_ofNat_eq_concat d
  have hlast : (Text.digitUnit (d % 10) == unit '0') = false :=
    beq_eq_false_iff_ne.mpr (Text.digitUnit_ne_zero _ (Nat.mod_lt _ (by decide))
      (Nat.pos_of_ne_zero h))
  rw [hfront, dropTrailingZeros, List.reverse_append, List.reverse_singleton, List.singleton_append,
    List.dropWhile_cons, hlast, if_neg Bool.false_ne_true, List.reverse_cons, List.reverse_reverse]

/-- Digits in front of a power of ten are laid out as the integer. -/
theorem layOut_ofNat {d p : Nat} (hd : d ≠ 0) (hshort : (Text.ofNat (d * Nat.pow 10 p)).length ≤ 21) :
    layOut (Text.ofNat d) ((p : Int) + (Text.ofNat d).length) = Text.ofNat (d * Nat.pow 10 p) := by
  rw [Text.ofNat_mul_pow hd, List.length_append, List.length_replicate] at hshort
  have hcond : (decide (((Text.ofNat d).length : Int) ≤ (p : Int) + (Text.ofNat d).length)
      && decide ((p : Int) + (Text.ofNat d).length ≤ 21)) = true := by
    rw [Bool.and_eq_true, decide_eq_true_iff, decide_eq_true_iff]
    omega
  have hcount : ((p : Int) + (Text.ofNat d).length - (Text.ofNat d).length).toNat = p := by omega
  rw [layOut, if_pos hcond, hcount, Text.ofNat_mul_pow hd]

/-- **The shortest decimal of an integer** of at most 53 bits is its numeral. The search finds
the digits in front of the trailing zeros, and laying them out puts the zeros back. -/
theorem ratioText_one {n : Nat} (h : n ≠ 0) (hsafe : n ≤ maxSafe) : ratioText n 1 = Text.ofNat n := by
  obtain ⟨k, -, hunit⟩ := exists_unitExponent_of_le_maxSafe h hsafe
  have hsignificand : significand n 1 = (n * Nat.pow 2 k, -(k : Int)) := by
    simp only [significand, hunit, scaleDown_neg, Nat.div_one]
  have haround := around_ofScaled h k
  rw [ratioText, hsignificand]
  simp only
  generalize Rounded.ofScaled (n * Nat.pow 2 k) (-(k : Int)) = r at haround ⊢
  have hlength : (Text.ofNat n).length ≤ 16 :=
    length_ofNat_le (Nat.lt_of_le_of_lt hsafe (by decide))
  have hpoint : pointPosition r.value r.den = (Text.ofNat n).length := by
    have hle : r.den ≤ r.value := by
      rw [haround.value_eq]
      exact Nat.le_mul_of_pos_left _ (Nat.pos_of_ne_zero h)
    rw [pointPosition, if_pos hle, haround.value_eq, Nat.mul_div_cancel _ haround.den_pos]
  have hone : 1 ≤ (Text.ofNat n).length := List.length_pos_iff.mpr (Text.ofNat_ne_nil n)
  obtain ⟨d, p, hgo, hd, hlast⟩ := haround.exists_go_eq 17 1 hone (by omega)
  have hshortest : r.shortest = (d, (p : Int)) := by
    rw [Rounded.shortest, hpoint]
    exact hgo
  have hdne : d ≠ 0 := by
    rintro rfl
    rw [Nat.zero_mul] at hd
    exact h hd.symm
  have hdigit : d % 10 ≠ 0 := by
    intro hzero
    -- otherwise the next power of ten divides the integer, too, and it has been tried
    obtain ⟨c, rfl⟩ := Nat.dvd_of_mod_eq_zero hzero
    have hnext : n = c * Nat.pow 10 (p + 1) := by
      rw [← hd, Nat.mul_comm 10 c, Nat.mul_assoc, Nat.mul_comm 10]
      rfl
    have hmod : n % Nat.pow 10 (p + 1) = 0 := by rw [hnext, Nat.mul_mod_left]
    have htried : (Text.ofNat n).length ≤ p + 1 := by
      by_contra hmore
      exact hlast (by omega) hmod
    have hle : Nat.pow 10 (p + 1) ≤ n :=
      Nat.le_of_dvd (Nat.pos_of_ne_zero h) (Nat.dvd_of_mod_eq_zero hmod)
    have hlt : n < Nat.pow 10 (p + 1) := Nat.lt_of_lt_of_le (Text.lt_pow_length_ofNat n)
      (Nat.pow_le_pow_right (by decide) htried)
    omega
  rw [hshortest]
  simp only
  rw [dropTrailingZeros_ofNat hdigit, layOut_ofNat hdne (by rw [hd]; omega), hd]

/-- The shortest decimal of an integer, with its sign. -/
def shortestText (n : Int) : Text :=
  if n = 0 then "0" else (if n < 0 then "-" else "") ++ ratioText n.natAbs 1

/-- The numerals of small integers are no exception from the shortest decimals. So the
definition may write them down directly. -/
theorem text_whole_eq (n : Int) : Number.text (.whole n) = shortestText n := by
  rw [Number.text, shortestText]
  by_cases hzero : n = 0
  · rw [hzero, if_pos rfl, if_pos (by decide)]
    exact Text.ofNat_of_lt (by decide)
  · rw [if_neg hzero]
    split
    · next hsafe =>
      rw [ratioText_one (Int.natAbs_ne_zero.mpr hzero) hsafe]
      cases n with
      | ofNat n => rfl
      | negSucc n =>
        rw [if_pos (Int.negSucc_lt_zero n)]
        rfl
    · rfl

end Number

end MetadataBlock
