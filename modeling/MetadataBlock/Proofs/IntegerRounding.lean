import Mathlib.Data.List.TakeWhile
import MetadataBlock.Number.Decimal
import MetadataBlock.Proofs.Numeral

/-!
# Rounding of integers

What becomes of an integer numeral of any length when it is rounded to 53 bits. An
integer of at most 53 bits is kept, and a longer one is not rounded back among the
safe integers: its unit is at least two, and it has at least 52 bits above it.

- `unitExponent_one`: the unit that an integer is rounded to;
- `ofRatio_of_le_maxSafe`, `isSafe_ofRatio_of_lt`: the two sides of the bound;
- `ofDecimal_zero_eq`: a numeral without a point or an exponent is rounded like its
  integer, unless it is longer than any number;
- `ofText?_of_digits`, `ofText?_of_minus`: what is read from the digits of an integer.
-/

namespace MetadataBlock.Number

/-! ## Units -/

theorem pow_mul_pow (i j : Nat) : Nat.pow 2 i * Nat.pow 2 j = Nat.pow 2 (i + j) :=
  (Nat.pow_add 2 i j).symm

theorem pow_pos (k : Nat) : 0 < Nat.pow 2 k := Nat.pow_pos (by decide)

theorem scaleDown_natCast (num den k : Nat) : scaleDown num den k = (num, den * Nat.pow 2 k) :=
  if_pos (Int.natCast_nonneg k)

theorem scaleDown_neg (num den k : Nat) :
    scaleDown num den (-(k : Int)) = (num * Nat.pow 2 k, den) := by
  cases k with
  | zero =>
    show (num, den * 1) = (num * 1, den)
    rw [Nat.mul_one, Nat.mul_one]
  | succ k => rw [scaleDown, if_neg (by omega), Int.neg_neg, Int.toNat_natCast]

theorem ofScaled_natCast (m : Int) (k : Nat) : ofScaled m k = .whole (m * Nat.pow 2 k) :=
  if_pos (Int.natCast_nonneg k)

theorem ofScaled_neg (m : Int) (k : Nat) : ofScaled m (-(k : Int)) = ofHalves m k := by
  cases k with
  | zero =>
    show Number.whole (m * 1) = .whole m
    rw [Int.mul_one]
  | succ k => rw [ofScaled, if_neg (by omega), Int.neg_neg, Int.toNat_natCast]

/-- The last of the 53 bits that an integer keeps. The first guess is too low for every
integer, as the quotient would have 54 bits, and it is raised by one. -/
theorem unitExponent_one {n : Nat} (h : n ≠ 0) : unitExponent n 1 = (n.log2 : Int) - 52 := by
  have hlow : Nat.pow 2 n.log2 ≤ n := Nat.log2_self_le h
  have hone : Nat.log2 1 = 0 := by decide
  have hfirst : max leastExponent ((n.log2 : Int) - (Nat.log2 1 : Nat) - 53) = (n.log2 : Int) - 53 := by
    rw [hone, leastExponent]
    omega
  -- with the unit below the quotient would have more than 53 bits
  have hlarge : Nat.pow 2 53 ≤ (scaleDown n 1 ((n.log2 : Int) - 53)).1
      / (scaleDown n 1 ((n.log2 : Int) - 53)).2 := by
    rcases Nat.lt_or_ge n.log2 53 with hlt | hge
    · obtain ⟨k, hk⟩ : ∃ k, n.log2 + k = 53 := ⟨53 - n.log2, by omega⟩
      rw [show (n.log2 : Int) - 53 = -(k : Int) by omega, scaleDown_neg, Nat.div_one, ← hk,
        ← pow_mul_pow]
      exact Nat.mul_le_mul_right _ hlow
    · obtain ⟨k, hk⟩ : ∃ k, n.log2 = 53 + k := ⟨n.log2 - 53, by omega⟩
      rw [show (n.log2 : Int) - 53 = (k : Nat) by omega, scaleDown_natCast, Nat.one_mul]
      rw [hk, ← pow_mul_pow] at hlow
      exact (Nat.le_div_iff_mul_le (pow_pos k)).mpr hlow
  simp only [unitExponent, hfirst]
  rw [if_neg (Nat.not_lt.mpr hlarge)]
  omega

/-- The unit of an integer of at most 53 bits is not above one. -/
theorem exists_unitExponent_of_le_maxSafe {n : Nat} (h : n ≠ 0) (hsafe : n ≤ maxSafe) :
    ∃ k : Nat, n.log2 + k = 52 ∧ unitExponent n 1 = -(k : Int) := by
  have hlog : n.log2 < 53 := (Nat.log2_lt h).mpr (Nat.lt_succ_of_le hsafe)
  refine ⟨52 - n.log2, by omega, ?_⟩
  rw [unitExponent_one h]
  omega

/-! ## Quotients -/

theorem divideToEven_one (n : Nat) : divideToEven n 1 = n := by
  simp [divideToEven, Nat.mod_one]

/-- Rounding never goes below the quotient. -/
theorem le_divideToEven (num den : Nat) : num / den ≤ divideToEven num den := by
  simp only [divideToEven]
  split
  · exact Nat.le_refl _
  · split
    · exact Nat.le_succ _
    · split
      · exact Nat.le_refl _
      · exact Nat.le_succ _

/-- A multiple of the denominator is a whole number, as each halving takes one factor away. -/
theorem ofHalves_mul (m : Int) (k : Nat) : ofHalves (m * Nat.pow 2 k) k = .whole m := by
  induction k with
  | zero =>
    show Number.whole (m * 1) = _
    rw [Int.mul_one]
  | succ k ih =>
    have hdouble : m * ((Nat.pow 2 (k + 1) : Nat) : Int) = m * (Nat.pow 2 k : Nat) * 2 := by
      have hpow : Nat.pow 2 (k + 1) = Nat.pow 2 k * 2 := rfl
      rw [hpow, Int.natCast_mul, Int.mul_assoc]
      rfl
    rw [ofHalves, hdouble, if_pos (Int.mul_emod_left _ _), Int.mul_ediv_cancel _ (by decide), ih]

/-! ## Integers -/

/-- The integer with a sign. -/
def signed (negative : Bool) (n : Nat) : Int := if negative then -(n : Int) else n

theorem natAbs_signed (negative : Bool) (n : Nat) : (signed negative n).natAbs = n := by
  cases negative <;> simp [signed]

theorem signed_mul (negative : Bool) (m k : Nat) :
    signed negative (m * k) = signed negative m * k := by
  cases negative with
  | false => exact Int.natCast_mul m k
  | true =>
    show -((m * k : Nat) : Int) = -(m : Int) * k
    rw [Int.natCast_mul, Int.neg_mul]

/-- An integer of at most 53 bits is kept by rounding. Its unit is not above one, so it is a
multiple of the unit and nothing is rounded away. -/
theorem ofRatio_of_le_maxSafe (negative : Bool) {n : Nat} (h : n ≠ 0) (hsafe : n ≤ maxSafe) :
    ofRatio negative n 1 = .whole (signed negative n) := by
  obtain ⟨k, -, hunit⟩ := exists_unitExponent_of_le_maxSafe h hsafe
  have hne : n * Nat.pow 2 k ≠ 0 := Nat.mul_ne_zero h (Nat.ne_of_gt (pow_pos k))
  have hfinite : (decide (971 < -(k : Int)) || (decide (-(k : Int) = 971)
      && decide (Nat.pow 2 53 ≤ n * Nat.pow 2 k))) = false := by
    rw [decide_eq_false (by omega), decide_eq_false (by omega), Bool.false_and, Bool.false_or]
  simp only [ofRatio, if_neg h, hunit, scaleDown_neg, divideToEven_one, if_neg hne, hfinite,
    Bool.false_eq_true, if_false]
  rw [← signed, ofScaled_neg, signed_mul, ofHalves_mul]

/-- A larger integer is rounded to a number that is not safe. Its unit is at least two, and it
has at least 52 bits above the unit, so rounding does not bring it below the bound. -/
theorem isSafe_ofRatio_of_lt (negative : Bool) {n : Nat} (h : maxSafe < n) :
    (ofRatio negative n 1).isSafe = false := by
  have hne : n ≠ 0 := Nat.ne_of_gt (Nat.lt_of_le_of_lt (Nat.zero_le _) h)
  have hlog : 53 ≤ n.log2 := (Nat.le_log2 hne).mpr h
  obtain ⟨k, hk⟩ : ∃ k, n.log2 = 52 + (k + 1) := ⟨n.log2 - 53, by omega⟩
  have hunit : unitExponent n 1 = (k + 1 : Nat) := by
    rw [unitExponent_one hne]
    omega
  have hlarge : Nat.pow 2 52 ≤ divideToEven n (Nat.pow 2 (k + 1)) := by
    refine Nat.le_trans ?_ (le_divideToEven n _)
    rw [Nat.le_div_iff_mul_le (pow_pos _), pow_mul_pow, ← hk]
    exact Nat.log2_self_le hne
  have hzero : divideToEven n (Nat.pow 2 (k + 1)) ≠ 0 :=
    Nat.ne_of_gt (Nat.lt_of_lt_of_le (pow_pos 52) hlarge)
  simp only [ofRatio, if_neg hne, hunit, scaleDown_natCast, Nat.one_mul, if_neg hzero]
  rw [← signed]
  split
  · rfl
  · rw [ofScaled_natCast, ← signed_mul, isSafe, natAbs_signed, decide_eq_false_iff_not, Nat.not_le]
    -- 52 bits above a unit of at least two
    calc maxSafe < Nat.pow 2 52 * Nat.pow 2 1 := by decide
      _ ≤ Nat.pow 2 52 * Nat.pow 2 (k + 1) :=
        Nat.mul_le_mul_left _ (Nat.pow_le_pow_right (by decide) (Nat.le_add_left 1 k))
      _ ≤ divideToEven n (Nat.pow 2 (k + 1)) * Nat.pow 2 (k + 1) := Nat.mul_le_mul_right _ hlarge

/-! ## Reading integers -/

theorem ofRatio_zero (negative : Bool) (den : Nat) :
    ofRatio negative 0 den = if negative then .negZero else .whole 0 :=
  if_pos rfl

/-- A numeral has at most as many digits as a power of ten above the number has zeros. Each
digit stands for a division by ten. -/
theorem length_ofNat_le {k n : Nat} (h : n < Nat.pow 10 (k + 1)) : (Text.ofNat n).length ≤ k + 1 := by
  induction k generalizing n with
  | zero =>
    rw [Text.ofNat_of_lt h]
    exact Nat.le_refl 1
  | succ k ih =>
    rcases Nat.lt_or_ge n 10 with hlt | hge
    · rw [Text.ofNat_of_lt hlt]
      exact Nat.succ_le_succ (Nat.zero_le _)
    · have htenth : n / 10 < Nat.pow 10 (k + 1) := by
        rw [Nat.div_lt_iff_lt_mul (by decide)]
        exact h
      rw [Text.ofNat_of_le hge, List.length_append, List.length_singleton]
      exact Nat.succ_le_succ (ih htenth)

/-- The integer of some digits is rounded like any other, unless there are so many digits
that it is larger than all numbers. -/
theorem ofDecimal_zero_eq (negative : Bool) (n : Nat) :
    ofDecimal negative n 0 = if 400 < (Text.ofNat n).length then .infinity negative
      else ofRatio negative n 1 := by
  have hcount : ¬ (0 : Int) + (Text.ofNat n).length < -400 := by omega
  by_cases hzero : n = 0
  · subst hzero
    have hone : ¬ 400 < (Text.ofNat 0).length := by decide +kernel
    simp only [ofDecimal, hone, if_false]
    rfl
  · simp only [ofDecimal, decide_eq_false hzero, decide_eq_false hcount, Bool.or_self,
      Bool.false_eq_true, if_false]
    have hmul : n * Nat.pow 10 (0 : Int).toNat = n := Nat.mul_one n
    rw [if_pos (Int.le_refl 0), hmul]
    refine if_congr ?_ rfl rfl
    omega

theorem ofDecimal_zero_of_le_maxSafe (negative : Bool) {n : Nat} (hsafe : n ≤ maxSafe) :
    ofDecimal negative n 0 = ofRatio negative n 1 := by
  have hlength : (Text.ofNat n).length ≤ 16 :=
    length_ofNat_le (Nat.lt_of_le_of_lt hsafe (by decide))
  rw [ofDecimal_zero_eq, if_neg (by omega)]

/-- A numeral above the bound is not read as a safe integer, however long it is. -/
theorem isSafe_ofDecimal_zero (negative : Bool) {n : Nat} (h : maxSafe < n) :
    (ofDecimal negative n 0).isSafe = false := by
  rw [ofDecimal_zero_eq]
  split
  · rfl
  · exact isSafe_ofRatio_of_lt negative h

/-- Digits are read as an integer. -/
theorem readUnsigned?_of_digits (negative : Bool) {t : Text} (hne : t ≠ [])
    (h : ∀ u ∈ t, Text.isDigit u = true) :
    readUnsigned? negative t = some (ofDecimal negative (Text.natOfDigits t) 0) := by
  have htake : t.takeWhile Text.isDigit = t := List.takeWhile_eq_self_iff.mpr h
  have hdrop : t.dropWhile Text.isDigit = [] := List.dropWhile_eq_nil_iff.mpr h
  have hempty : t.isEmpty = false := List.isEmpty_eq_false_iff.mpr hne
  simp only [readUnsigned?, htake, hdrop, hempty, List.append_nil]
  rfl

section

variable {t : Text}

/-- Digits begin with no other unit. -/
theorem digits_beq_cons (h : ∀ u ∈ t, Text.isDigit u = true) {v : UInt16}
    (hv : Text.isDigit v = false) (s : Text) : (t == v :: s) = false := by
  rw [beq_eq_false_iff_ne]
  rintro rfl
  rw [h v List.mem_cons_self] at hv
  cases hv

theorem digits_beq_infinity (h : ∀ u ∈ t, Text.isDigit u = true) :
    (t == (Text.ofString "Infinity" : Text)) = false :=
  digits_beq_cons h (by decide) _

/-- A numeral without a sign is read as an integer. The tests for a sign and for the names of
special numbers all fail on a digit. -/
theorem ofText?_of_digits (hne : t ≠ []) (h : ∀ u ∈ t, Text.isDigit u = true) :
    ofText? t = some (ofDecimal false (Text.natOfDigits t) 0) := by
  have hsign : readSign t = (false, t) := by
    obtain ⟨u, rest, rfl⟩ := List.exists_cons_of_ne_nil hne
    have hu := h u List.mem_cons_self
    have hother : ∀ v, Text.isDigit v = false → (u == v) = false := by
      intro v hv
      rw [beq_eq_false_iff_ne]
      rintro rfl
      rw [hu] at hv
      cases hv
    rw [readSign, hother _ (by decide), hother _ (by decide)]
    rfl
  have hnan : (t == (Text.ofString "NaN" : Text)) = false := digits_beq_cons h (by decide) _
  rw [← readUnsigned?_of_digits false hne h]
  simp only [ofText?, hsign, hnan, digits_beq_infinity h, Bool.false_eq_true, if_false]

/-- A numeral with a minus sign is read as a negative integer. -/
theorem ofText?_of_minus (hne : t ≠ []) (h : ∀ u ∈ t, Text.isDigit u = true) :
    ofText? (Text.unit '-' :: t) = some (ofDecimal true (Text.natOfDigits t) 0) := by
  have hsign : readSign (Text.unit '-' :: t) = (true, t) := rfl
  have hnan : (Text.unit '-' :: t == (Text.ofString "NaN" : Text)) = false := rfl
  rw [← readUnsigned?_of_digits true hne h]
  simp only [ofText?, hsign, hnan, digits_beq_infinity h, Bool.false_eq_true, if_false]

end

end MetadataBlock.Number
