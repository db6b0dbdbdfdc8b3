import MetadataBlock.Number.Rounding

/-!
# Decimal numerals of numbers

`Number.text` writes the fewest digits that read back as the same value, and of
those the nearest. Values from `1e-6` up to, but not including, `1e21` are
written positionally, all others with an exponent. `Number.ofText?` reads
decimal numerals.
-/

namespace MetadataBlock.Number

/-- The significand and exponent of a positive value `m * 2 ^ q`: 53 bits, or
fewer at the least exponent. -/
def significand (num den : Nat) : Nat × Int :=
  let q := unitExponent num den
  let (n, d) := scaleDown num den q
  (n / d, q)

/-- A positive value `num / den` with the interval of reals that round to it,
all over one denominator. -/
structure Rounded where
  low : Nat
  value : Nat
  high : Nat
  den : Nat
  /-- Do the ends of the interval round to the value? -/
  closed : Bool

/-- The interval of the value `m * 2 ^ q`. -/
def Rounded.ofScaled (m : Nat) (q : Int) : Rounded :=
  let up := Nat.pow 2 q.toNat
  let below := if m = Nat.pow 2 52 && leastExponent < q then 1 else 2
  { low := (4 * m - below) * up
    value := 4 * m * up
    high := (4 * m + 2) * up
    den := 4 * Nat.pow 2 (-q).toNat
    closed := m % 2 = 0 }

/-- Does `n * 10 ^ p` round to the value? -/
def Rounded.admits (r : Rounded) (n : Nat) (p : Int) : Bool :=
  let x := n * Nat.pow 10 p.toNat * r.den
  let scale := Nat.pow 10 (-p).toNat
  if r.closed then r.low * scale ≤ x && x ≤ r.high * scale
  else r.low * scale < x && x < r.high * scale

/-- The nearest admitted multiple of `10 ^ p`, if any; a tie goes to the even one. -/
def Rounded.onGrid? (r : Rounded) (p : Int) : Option Nat :=
  let value := r.value * Nat.pow 10 (-p).toNat
  let step := Nat.pow 10 p.toNat * r.den
  let below := value / step
  let twice := 2 * (value % step)
  let belowFirst := twice < step || (twice = step && below % 2 = 0)
  match r.admits below p, r.admits (below + 1) p with
  | true, true => some (if belowFirst then below else below + 1)
  | true, false => some below
  | false, true => some (below + 1)
  | false, false => none

/-- The number of digits before the point, at most zero for a value below one:
the least `k` with `num / den < 10 ^ k`. -/
def pointPosition (num den : Nat) : Int :=
  if den ≤ num then (Text.ofNat (num / den)).length
  else 1 - go 400 1
where
  /-- The least `j` with `den ≤ num * 10 ^ j`. -/
  go : Nat → Nat → Int
    | 0, j => j
    | fuel + 1, j => if den ≤ num * Nat.pow 10 j then j else go fuel (j + 1)

/-- The shortest admitted decimal: digits and the exponent of the last digit. -/
def Rounded.shortest (r : Rounded) : Nat × Int :=
  let point := pointPosition r.value r.den
  go point 17 1
where
  /-- Try `n` digits and more. -/
  go (point : Int) : Nat → Nat → Nat × Int
    | 0, n => (r.value / r.den, point - n)
    | fuel + 1, n =>
      match r.onGrid? (point - n) with
      | some digits => (digits, point - n)
      | none => go point fuel (n + 1)

/-- Drop the trailing zeros of a digit text. -/
def dropTrailingZeros (digits : Text) : Text :=
  (digits.reverse.dropWhile (· == Text.unit '0')).reverse

/-- Lay out digits `d₁ … dₖ` that stand for `0.d₁ … dₖ * 10 ^ point`. -/
def layOut (digits : Text) (point : Int) : Text :=
  let zero := Text.unit '0'
  let count : Int := digits.length
  if count ≤ point && point ≤ 21 then
    digits ++ List.replicate (point - count).toNat zero
  else if 0 < point && point ≤ 21 then
    digits.take point.toNat ++ "." ++ digits.drop point.toNat
  else if -6 < point && point ≤ 0 then
    "0." ++ List.replicate (-point).toNat zero ++ digits
  else
    let exponent := point - 1
    let sign : Text := if exponent < 0 then "-" else "+"
    let tail := "e" ++ sign ++ Text.ofNat exponent.natAbs
    match digits with
    | [d] => d :: tail
    | ds => ds.take 1 ++ "." ++ ds.drop 1 ++ tail

/-- The numeral of a positive value `num / den`. -/
def ratioText (num den : Nat) : Text :=
  let (m, q) := significand num den
  let (digits, exponent) := (Rounded.ofScaled m q).shortest
  let all := Text.ofNat digits
  layOut (dropTrailingZeros all) (exponent + all.length)

/-- The text of a number. Zero is written without its sign. -/
def text : Number → Text
  | .nan => "NaN"
  | .infinity negative => if negative then "-Infinity" else "Infinity"
  | .negZero => "0"
  | .whole n =>
    if n.natAbs ≤ maxSafe then Text.ofInt n
    else (if n < 0 then "-" else "") ++ ratioText n.natAbs 1
  | .dyadic odd shift =>
    (if odd < 0 then "-" else "") ++ ratioText odd.natAbs (Nat.pow 2 (shift + 1))

/-! ## Reading -/

/-- A sign in front of a numeral: is it negative, and what follows it? -/
def readSign : Text → Bool × Text
  | [] => (false, [])
  | u :: rest =>
    if u == Text.unit '-' then (true, rest)
    else if u == Text.unit '+' then (false, rest)
    else (false, u :: rest)

/-- The exponent part of a numeral: nothing, or `e` with a signed integer. -/
def readExponent? : Text → Option Int
  | [] => some 0
  | u :: rest =>
    if u == Text.unit 'e' || u == Text.unit 'E' then
      let (negative, digits) := readSign rest
      if digits.isEmpty || !digits.all Text.isDigit then none
      else
        let n : Int := Text.natOfDigits digits
        some (if negative then -n else n)
    else none

/-- An unsigned decimal numeral: digits with at most one point, at least one
digit, and an optional exponent. -/
def readUnsigned? (negative : Bool) (t : Text) : Option Number :=
  let integral := t.takeWhile Text.isDigit
  let rest := t.dropWhile Text.isDigit
  let (fraction, rest) : Text × Text :=
    match rest with
    | u :: more =>
      if u == Text.unit '.' then (more.takeWhile Text.isDigit, more.dropWhile Text.isDigit)
      else ([], rest)
    | [] => ([], [])
  if integral.isEmpty && fraction.isEmpty then none
  else do
    let exponent ← readExponent? rest
    some (ofDecimal negative (Text.natOfDigits (integral ++ fraction)) (exponent - fraction.length))

/-- The number that a decimal numeral stands for, rounded to binary64. -/
def ofText? (t : Text) : Option Number :=
  let (negative, magnitude) := readSign t
  if t == "NaN" then some .nan
  else if magnitude == "Infinity" then some (.infinity negative)
  else readUnsigned? negative magnitude

end MetadataBlock.Number
