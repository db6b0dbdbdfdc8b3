import Mathlib.Data.List.Induction
import MetadataBlock.Table.Cell

/-!
# Decimal numerals of integers

Writing a natural number and reading its digits are inverse to each other on the
canonical digits, those without a superfluous zero in front.

- `natOfDigits_ofNat`, `ofNat_natOfDigits`: the two directions;
- `isCanonicalDigits_ofNat`: what is written is canonical;
- `ofInt_forall`: a numeral holds digits and a minus sign only.
-/

namespace MetadataBlock.Text

/-! ## One digit -/

/-- The unit of a digit. -/
def digitUnit (d : Nat) : UInt16 := UInt16.ofNat (0x30 + d)

theorem digitValue_digitUnit : ∀ d, d < 10 → digitValue (digitUnit d) = d := by decide

theorem isDigit_digitUnit : ∀ d, d < 10 → isDigit (digitUnit d) = true := by decide

theorem digitUnit_ne_zero : ∀ d, d < 10 → 0 < d → digitUnit d ≠ unit '0' := by decide

theorem isDigit_iff {u : UInt16} : isDigit u = true ↔ 0x30 ≤ u.toNat ∧ u.toNat ≤ 0x39 := by
  rw [isDigit, Bool.and_eq_true, decide_eq_true_iff, decide_eq_true_iff, UInt16.le_iff_toNat_le,
    UInt16.le_iff_toNat_le]
  rfl

theorem digitValue_lt {u : UInt16} (h : isDigit u = true) : digitValue u < 10 := by
  have := isDigit_iff.mp h
  rw [digitValue]
  omega

/-- A digit is the unit of its value. -/
theorem digitUnit_digitValue {u : UInt16} (h : isDigit u = true) :
    digitUnit (digitValue u) = u := by
  have hu := isDigit_iff.mp h
  rw [digitUnit, digitValue, show 0x30 + (u.toNat - 0x30) = u.toNat by omega]
  exact UInt16.ofNat_toNat

/-! ## Natural numbers -/

theorem ofNat_of_lt {n : Nat} (h : n < 10) : ofNat n = [digitUnit n] := by
  rw [ofNat, if_pos h]
  rfl

/-- A longer numeral is that of the number without its last digit, and that digit. -/
theorem ofNat_of_le {n : Nat} (h : 10 ≤ n) :
    ofNat n = ofNat (n / 10) ++ [digitUnit (n % 10)] := by
  rw [ofNat, if_neg (by omega)]
  rfl

theorem natOfDigits_concat (t : Text) (u : UInt16) :
    natOfDigits (t ++ [u]) = 10 * natOfDigits t + digitValue u := by
  simp [natOfDigits]

theorem natOfDigits_singleton (u : UInt16) : natOfDigits [u] = digitValue u := by
  simp [natOfDigits]

/-- The digits of a number stand for it. The induction takes the last digit off, as writing
puts it there last. -/
theorem natOfDigits_ofNat (n : Nat) : natOfDigits (ofNat n) = n := by
  induction n using Nat.strongRecOn with
  | _ n ih =>
    rcases Nat.lt_or_ge n 10 with h | h
    · rw [ofNat_of_lt h, natOfDigits_singleton, digitValue_digitUnit n h]
    · -- the numeral is that of the tenth part with one more digit
      rw [ofNat_of_le h, natOfDigits_concat, ih (n / 10) (by omega),
        digitValue_digitUnit (n % 10) (by omega)]
      omega

/-- A numeral holds digits only. -/
theorem ofNat_forall (n : Nat) : ∀ u ∈ ofNat n, isDigit u = true := by
  induction n using Nat.strongRecOn with
  | _ n ih =>
    intro u hu
    rcases Nat.lt_or_ge n 10 with h | h
    · rw [ofNat_of_lt h, List.mem_singleton] at hu
      exact hu ▸ isDigit_digitUnit n h
    · rw [ofNat_of_le h] at hu
      rcases List.mem_append.mp hu with hu | hu
      · exact ih (n / 10) (by omega) u hu
      · exact List.mem_singleton.mp hu ▸ isDigit_digitUnit (n % 10) (by omega)

theorem ofNat_ne_nil (n : Nat) : ofNat n ≠ [] := by
  rcases Nat.lt_or_ge n 10 with h | h
  · simp [ofNat_of_lt h]
  · simp [ofNat_of_le h]

/-- Only the number zero begins with the digit zero. -/
theorem head?_ofNat_ne {n : Nat} (h : 0 < n) : (ofNat n).head? ≠ some (unit '0') := by
  induction n using Nat.strongRecOn with
  | _ n ih =>
    rcases Nat.lt_or_ge n 10 with hlt | hge
    · rw [ofNat_of_lt hlt, List.head?_cons]
      exact fun e => digitUnit_ne_zero n hlt h (Option.some.inj e)
    · obtain ⟨u, t, ht⟩ := List.exists_cons_of_ne_nil (ofNat_ne_nil (n / 10))
      have hhead := ih (n / 10) (by omega) (by omega)
      rw [ofNat_of_le hge]
      rw [ht] at hhead ⊢
      exact hhead

/-! ## Canonical digits -/

open Cell (isCanonicalDigits)

theorem isCanonicalDigits_iff {t : Text} :
    isCanonicalDigits t = true ↔
      t ≠ [] ∧ (∀ u ∈ t, isDigit u = true) ∧ (t.head? ≠ some (unit '0') ∨ t.length = 1) := by
  simp [isCanonicalDigits, and_assoc]

/-- A numeral has no superfluous zero in front. -/
theorem isCanonicalDigits_ofNat (n : Nat) : isCanonicalDigits (ofNat n) = true := by
  refine isCanonicalDigits_iff.mpr ⟨ofNat_ne_nil n, ofNat_forall n, ?_⟩
  rcases Nat.eq_zero_or_pos n with rfl | h
  · right
    rw [ofNat_of_lt (by omega)]
    rfl
  · exact .inl (head?_ofNat_ne h)

/-- Digits that begin with another digit than zero stand for a positive number. -/
theorem natOfDigits_pos {t : Text} (hdigits : ∀ u ∈ t, isDigit u = true) (hne : t ≠ [])
    (hhead : t.head? ≠ some (unit '0')) : 0 < natOfDigits t := by
  induction t using List.reverseRecOn with
  | nil => exact absurd rfl hne
  | append_singleton t u ih =>
    rw [natOfDigits_concat]
    by_cases ht : t = []
    · subst ht
      have hu : isDigit u = true := hdigits u (by simp)
      rcases Nat.eq_zero_or_pos (digitValue u) with hzero | hpos
      -- a single digit of value zero would be the leading zero
      · refine absurd ?_ hhead
        rw [List.nil_append, List.head?_cons, ← digitUnit_digitValue hu, hzero]
        rfl
      · omega
    · obtain ⟨v, t, rfl⟩ := List.exists_cons_of_ne_nil ht
      have := ih (fun w hw => hdigits w (List.mem_append_left _ hw)) ht hhead
      omega

/-- Canonical digits are the numeral of the number they stand for. Without the condition, zeros
in front would be lost. -/
theorem ofNat_natOfDigits {t : Text} (h : isCanonicalDigits t = true) :
    ofNat (natOfDigits t) = t := by
  obtain ⟨hne, hdigits, hcanonical⟩ := isCanonicalDigits_iff.mp h
  clear h
  -- from the right, where a numeral grows; the digits in front stay canonical
  induction t using List.reverseRecOn with
  | nil => exact absurd rfl hne
  | append_singleton t u ih =>
    have hu : isDigit u = true := hdigits u (by simp)
    have ht : ∀ w ∈ t, isDigit w = true := fun w hw => hdigits w (List.mem_append_left _ hw)
    rw [natOfDigits_concat]
    by_cases hnil : t = []
    · subst hnil
      have hvalue : 10 * natOfDigits [] + digitValue u = digitValue u := by simp [natOfDigits]
      rw [hvalue, ofNat_of_lt (digitValue_lt hu), digitUnit_digitValue hu]
      rfl
    · have hhead : t.head? ≠ some (unit '0') := by
        obtain ⟨v, s, rfl⟩ := List.exists_cons_of_ne_nil hnil
        rcases hcanonical with hhead | hlen
        · exact hhead
        · simp at hlen
      have hpos := natOfDigits_pos ht hnil hhead
      have hlt := digitValue_lt hu
      rw [ofNat_of_le (by omega),
        show (10 * natOfDigits t + digitValue u) / 10 = natOfDigits t by omega,
        show (10 * natOfDigits t + digitValue u) % 10 = digitValue u by omega,
        ih hnil ht (.inl hhead), digitUnit_digitValue hu]

/-- The units of the numeral of an integer. -/
theorem ofInt_forall (n : Int) : ∀ u ∈ ofInt n, isDigit u = true ∨ u = unit '-' := by
  cases n with
  | ofNat n => exact fun u hu => .inl (ofNat_forall n u hu)
  | negSucc n =>
    intro u hu
    rcases List.mem_cons.mp hu with rfl | hu
    · exact .inr rfl
    · exact .inl (ofNat_forall (n + 1) u hu)

theorem ofInt_ne_nil (n : Int) : ofInt n ≠ [] := by
  cases n with
  | ofNat n => exact ofNat_ne_nil n
  | negSucc n => exact List.cons_ne_nil _ _

/-- No digit is white space. -/
theorem isBlank_of_isDigit {u : UInt16} (h : isDigit u = true) : isBlank u = false := by
  rw [← digitUnit_digitValue h]
  have hlt := digitValue_lt h
  generalize digitValue u = d at hlt
  revert d
  decide

end MetadataBlock.Text
