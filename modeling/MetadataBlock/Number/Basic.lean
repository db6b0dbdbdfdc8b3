import MetadataBlock.Text.Basic

/-!
# Numbers

The values of a binary64 cell, each kept exactly: a finite value is a whole
number or an odd multiple of a negative power of two, so arithmetic on it is
arithmetic on integers.

- `Number`: the five kinds of value;
- `Number.same`: comparison, where zero has no sign and NaN has no equal;
- `Number.isWhole`, `Number.isSafe`, `Number.toNat?`: the classes that settings
  and cells ask for.
-/

namespace MetadataBlock

/-- A binary64 value. -/
inductive Number where
  | nan
  | infinity (negative : Bool)
  | negZero
  /-- A whole number, zero included. -/
  | whole (n : Int)
  /-- The value `odd / 2 ^ (shift + 1)`, where `odd` is an odd number. -/
  | dyadic (odd : Int) (shift : Nat)
  deriving DecidableEq, Inhabited

namespace Number

instance (n : Nat) : OfNat Number n := ⟨.whole n⟩

instance : Coe Int Number := ⟨.whole⟩

instance : Coe Nat Number := ⟨fun n => .whole n⟩

/-- The largest integer that no other integer rounds to: one less than `2 ^ 53`. -/
def maxSafe : Nat := 9007199254740991

/-- Zero without its sign. -/
def unsigned : Number → Number
  | .negZero => .whole 0
  | x => x

/-- Equality of values: both zeros are one, and NaN equals nothing. -/
def same (x y : Number) : Bool :=
  x != .nan && x.unsigned == y.unsigned

def isNan : Number → Bool
  | .nan => true
  | _ => false

/-- Is the value an integer? Infinities are not. -/
def isWhole : Number → Bool
  | .whole _ | .negZero => true
  | _ => false

/-- Is the value an integer that no other integer rounds to? -/
def isSafe : Number → Bool
  | .whole n => n.natAbs ≤ maxSafe
  | .negZero => true
  | _ => false

/-- The largest integer below or at the value, unless it is infinite or NaN. -/
def floor? : Number → Option Int
  | .whole n => some n
  | .negZero => some 0
  | .dyadic odd shift => some (odd / Nat.pow 2 (shift + 1))
  | _ => none

/-- The integer part of the value, cut toward zero. -/
def truncate? : Number → Option Int
  | .dyadic odd shift => some (odd.tdiv (Nat.pow 2 (shift + 1)))
  | x => x.floor?

/-- Is the value at least the integer? NaN is not. -/
def atLeast (x : Number) (bound : Int) : Bool :=
  match x with
  | .infinity negative => !negative
  | x => match x.floor? with
    | some n => bound ≤ n
    | none => false

/-- Is the value at most the integer? NaN is not. -/
def atMost (x : Number) (bound : Int) : Bool :=
  match x with
  | .nan => false
  | .infinity negative => negative
  | .negZero => 0 ≤ bound
  | .whole n => n ≤ bound
  | .dyadic odd shift => odd ≤ bound * Nat.pow 2 (shift + 1)

/-- The natural number that the value is, if it is one. -/
def toNat? : Number → Option Nat
  | .whole n => if 0 ≤ n then some n.toNat else none
  | .negZero => some 0
  | _ => none

end Number

end MetadataBlock
