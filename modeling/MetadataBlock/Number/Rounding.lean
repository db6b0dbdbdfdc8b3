import MetadataBlock.Number.Basic

/-!
# Rounding to binary64

`Number.ofRatio` rounds a quotient of natural numbers to the nearest binary64
value, a tie to the even significand. Everything is exact: the quotient is cut
to 53 bits by one integer division whose remainder decides the rounding.
-/

namespace MetadataBlock.Number

/-- The quotient rounded to the nearest integer, a tie to the even one. -/
def divideToEven (num den : Nat) : Nat :=
  let quotient := num / den
  let twice := 2 * (num % den)
  if twice < den then quotient
  else if den < twice then quotient + 1
  else if quotient % 2 = 0 then quotient else quotient + 1

/-- The value `m / 2 ^ k` in lowest terms. -/
def ofHalves (m : Int) : Nat → Number
  | 0 => .whole m
  | k + 1 => if m % 2 = 0 then ofHalves (m / 2) k else .dyadic m k

/-- The value `m * 2 ^ q`. -/
def ofScaled (m q : Int) : Number :=
  if 0 ≤ q then .whole (m * Nat.pow 2 q.toNat) else ofHalves m (-q).toNat

/-- The least exponent of a binary64 unit in the last place. -/
def leastExponent : Int := -1074

/-- The quotient `num / 2 ^ q / den` as a quotient of natural numbers. -/
def scaleDown (num den : Nat) (q : Int) : Nat × Nat :=
  if 0 ≤ q then (num, den * Nat.pow 2 q.toNat) else (num * Nat.pow 2 (-q).toNat, den)

/-- The exponent of the last of the 53 bits that `num / den` keeps. -/
def unitExponent (num den : Nat) : Int :=
  let q := max leastExponent ((num.log2 : Int) - den.log2 - 53)
  let (n, d) := scaleDown num den q
  if n / d < Nat.pow 2 53 then q else q + 1

/-- The nearest binary64 value of a quotient with a sign. -/
def ofRatio (negative : Bool) (num den : Nat) : Number :=
  if num = 0 then if negative then .negZero else .whole 0
  else
    let q := unitExponent num den
    let (n, d) := scaleDown num den q
    let m := divideToEven n d
    if m = 0 then if negative then .negZero else .whole 0
    else if 971 < q || (q = 971 && Nat.pow 2 53 ≤ m) then .infinity negative
    else ofScaled (if negative then -(m : Int) else m) q

/-- The nearest binary64 value of an integer. -/
def ofInteger (n : Int) : Number :=
  ofRatio (n < 0) n.natAbs 1

/-- The nearest binary64 value of `digits * 10 ^ exponent`, with a sign. -/
def ofDecimal (negative : Bool) (digits : Nat) (exponent : Int) : Number :=
  let magnitude := exponent + (Text.ofNat digits).length
  if digits = 0 || magnitude < -400 then ofRatio negative 0 1
  else if 400 < magnitude then .infinity negative
  else if 0 ≤ exponent then ofRatio negative (digits * Nat.pow 10 exponent.toNat) 1
  else ofRatio negative digits (Nat.pow 10 (-exponent).toNat)

end MetadataBlock.Number
