import MetadataBlock.Data.Basic

/-!
# Values of scalars

A plain scalar is null, a truth value, a number or a date if it looks like one,
and a text otherwise. What counts depends on the version of YAML:

- `Version.v12`: decimal, octal (`0o`) and hexadecimal integers, floats, `true`
  and `false`;
- `Version.v11`: besides that binary and base-60 numbers, `_` between digits,
  `yes`, `no`, `on`, `off`, dates, and the merge key `<<`.
-/

namespace MetadataBlock.Yaml

/-- The value of a scalar. -/
inductive Value where
  | null
  | bool (b : Bool)
  | number (n : Number)
  | text (t : Text)
  | date (millis : Number)
  /-- The key `<<` of YAML 1.1. -/
  | merge
  deriving DecidableEq, Inhabited

/-- The versions of YAML. -/
inductive Version where
  | v11
  | v12
  deriving DecidableEq

namespace Value

/-- Are two keys the same? Dates and merge keys differ from everything. -/
def same : Value → Value → Bool
  | null, null => true
  | bool a, bool b => a == b
  | number a, number b => a.same b
  | text a, text b => a == b
  | _, _ => false

/-- The value as data. -/
def toData : Value → Data
  | null => .null
  | bool b => .bool b
  | number n => .number n
  | text t => .text t
  | date ms => .date ms
  | merge => .text "Symbol(<<)"

/-! ## Shapes of numerals -/

/-- A run of units of a class that begins the text, and the rest. -/
def span (test : UInt16 → Bool) (t : Text) : Text × Text :=
  (t.takeWhile test, t.dropWhile test)

/-- The text behind an optional sign, and whether the sign is a minus. -/
def unsign (t : Text) : Bool × Text :=
  Number.readSign t

def isOctal (u : UInt16) : Bool :=
  0x30 ≤ u && u ≤ 0x37

def isHex (u : UInt16) : Bool :=
  (Text.hexValue? u).isSome

def isBinary (u : UInt16) : Bool :=
  u == 0x30 || u == 0x31

def underscore : UInt16 := 0x5F

/-- A digit of a class, or `_`. -/
def orUnderscore (test : UInt16 → Bool) (u : UInt16) : Bool :=
  test u || u == underscore

def dropUnderscores (t : Text) : Text :=
  t.filter (· != underscore)

/-- The rest of a text behind a given beginning. -/
def behind? (opening t : Text) : Option Text :=
  if opening.isPrefixOf t then some (t.drop opening.length) else none

/-- Is the text a run of at least one unit of a class? -/
def isRun (test : UInt16 → Bool) (t : Text) : Bool :=
  !t.isEmpty && t.all test

/-- The integer that digits stand for; no digits at all stand for NaN. -/
def integer (negative : Bool) (radix : Nat) (digits : Text) : Number :=
  if digits.isEmpty then .nan
  else
    let n := digits.foldl (fun n u => radix * n + (Text.hexValue? u).getD 0) 0
    Number.ofRatio negative n 1

/-- An exponent: `e`, an optional sign and digits. -/
def isExponent (t : Text) : Bool :=
  match t with
  | u :: rest => (u == Text.unit 'e' || u == Text.unit 'E') && isRun Text.isDigit (unsign rest).2
  | [] => false

/-- Split an unsigned numeral into its integral part, its fraction, if it has a point,
and its exponent part. -/
def splitNumeral (digit : UInt16 → Bool) (t : Text) : Text × Option Text × Text :=
  let (integral, rest) := span digit t
  match behind? "." rest with
  | some rest =>
    let (fraction, rest) := span digit rest
    (integral, some fraction, rest)
  | none => (integral, none, rest)

/-- The number that a numeral with a point or an exponent stands for. A point without
digits stands for NaN. -/
def float (t : Text) : Number :=
  (Number.ofText? (dropUnderscores t)).getD .nan

/-- `.inf`, with a sign or not, and `.nan`, in three letter cases each. -/
def special? (t : Text) : Option Number :=
  let (negative, magnitude) := unsign t
  if ([".inf", ".Inf", ".INF"] : List Text).contains magnitude then some (.infinity negative)
  else if ([".nan", ".NaN", ".NAN"] : List Text).contains t then some .nan
  else none

def isNull (t : Text) : Bool :=
  (["", "~", "null", "Null", "NULL"] : List Text).contains t

/-! ## Version 1.2 -/

def bool12? (t : Text) : Option Bool :=
  if (["true", "True", "TRUE"] : List Text).contains t then some true
  else if (["false", "False", "FALSE"] : List Text).contains t then some false
  else none

def int12? (t : Text) : Option Number :=
  match (behind? "0o" t).filter (isRun isOctal) with
  | some digits => some (integer false 8 digits)
  | none =>
    let (negative, digits) := unsign t
    if isRun Text.isDigit digits then some (integer negative 10 digits)
    else ((behind? "0x" t).filter (isRun isHex)).map (integer false 16)

def float12? (t : Text) : Option Number :=
  match special? t with
  | some n => some n
  | none =>
    let (integral, fraction, rest) := splitNumeral Text.isDigit (unsign t).2
    let hasDigits := !integral.isEmpty || (fraction.any (!·.isEmpty))
    if hasDigits && (isExponent rest || (rest.isEmpty && fraction.isSome)) then some (float t) else none

/-! ## Version 1.1 -/

def bool11? (t : Text) : Option Bool :=
  if (["Y", "y", "yes", "Yes", "YES", "true", "True", "TRUE", "on", "On", "ON"] : List Text).contains t then
    some true
  else if (["N", "n", "no", "No", "NO", "false", "False", "FALSE", "off", "Off", "OFF"] : List Text).contains t
  then some false
  else none

def int11? (t : Text) : Option Number :=
  let (negative, magnitude) := unsign t
  let read (radix : Nat) (digits : Text) : Number := integer negative radix (dropUnderscores digits)
  match (behind? "0b" magnitude).filter (isRun (orUnderscore isBinary)) with
  | some digits => some (read 2 digits)
  | none =>
    match (behind? "0" magnitude).filter (isRun (orUnderscore isOctal)) with
    | some digits => some (read 8 digits)
    | none =>
      if magnitude.head?.any Text.isDigit && isRun (orUnderscore Text.isDigit) magnitude then
        some (read 10 magnitude)
      else ((behind? "0x" magnitude).filter (isRun (orUnderscore isHex))).map (read 16)

def float11? (t : Text) : Option Number :=
  match special? t with
  | some n => some n
  | none =>
    let (integral, fraction, rest) := splitNumeral (orUnderscore Text.isDigit) (unsign t).2
    let startsWithDigit := integral.head?.any Text.isDigit
    if (startsWithDigit && isExponent rest)
        || (rest.isEmpty && fraction.isSome && (integral.isEmpty || startsWithDigit)) then
      some (float t)
    else none

/-- One step in reading a base-60 number. -/
def addSixtieth (n p : Number) : Number :=
  match n, p with
  | .whole n, .whole p => Number.ofInteger (60 * n + p)
  | .whole n, .dyadic odd shift =>
    let num := 60 * n * Nat.pow 2 (shift + 1) + odd
    Number.ofRatio (num < 0) num.natAbs (Nat.pow 2 (shift + 1))
  | _, _ => .nan

/-- The value of base-60 digits. -/
def sexagesimal (negative : Bool) (parts : List Text) : Number :=
  let n := parts.foldl (fun n p => addSixtieth n ((Number.ofText? p).getD .nan)) (.whole 0)
  match negative, n with
  | true, .whole 0 => .negZero
  | true, .whole n => .whole (-n)
  | true, .dyadic odd shift => .dyadic (-odd) shift
  | _, n => n

/-- A base-60 digit: one or two decimal digits below 60. -/
def isSixtieth (t : Text) : Bool :=
  match t with
  | [u] => Text.isDigit u
  | [u, v] => 0x30 ≤ u && u ≤ 0x35 && Text.isDigit v
  | _ => false

/-- A base-60 number, with a fraction or not. -/
def sexagesimal? (t : Text) : Option Number :=
  let (negative, magnitude) := unsign t
  match Text.splitOn (Text.unit ':') magnitude with
  | first :: second :: rest =>
    let parts := second :: rest
    let last := parts.getLastD []
    let (whole, fraction) := span Text.isDigit last
    let isWhole := fraction.isEmpty
      || ((behind? "." fraction).any (·.all (orUnderscore Text.isDigit)))
    if first.head?.any Text.isDigit && first.all (orUnderscore Text.isDigit)
        && parts.dropLast.all isSixtieth && isSixtieth whole && isWhole then
      some (sexagesimal negative ((first :: parts).map dropUnderscores))
    else none
  | _ => none

/-! ## Dates -/

/-- Between `least` and `most` digits at the start of a text, as many as possible. -/
def digits? (least most : Nat) (t : Text) : Option (Nat × Text) :=
  let digits := (t.take most).takeWhile Text.isDigit
  if digits.length < least then none else some (Text.natOfDigits digits, t.drop digits.length)

/-- The rest of a text behind a unit. -/
def after? (c : Char) (t : Text) : Option Text :=
  behind? [Text.unit c] t

def dropInlineBlanks (t : Text) : Text :=
  t.dropWhile fun u => u == 0x20 || u == 0x09

/-- A time zone as an offset in minutes. -/
def zone? (t : Text) : Option Int := do
  if t == "Z" then return 0
  let negative ← match t.head? with
    | some u => if u == Text.unit '-' then some true else if u == Text.unit '+' then some false else none
    | none => none
  let (hours, rest) ← digits? 1 2 t.tail
  if t.tail.length - rest.length = 2 && !(t.tail.head?.any fun u => u ≤ 0x32) then none
  let minutes : Int ←
    match rest with
    | [] => some (if hours < 30 then 60 * hours else hours : Int)
    | _ => do
      let (m, rest) ← digits? 2 2 (← after? ':' rest)
      if rest.isEmpty then
        let total : Int := 60 * hours + m
        some (if total < 30 then 60 * total else total)
      else none
  return if negative then -minutes else minutes

/-- The time of day in milliseconds, less the offset of the time zone. -/
def clock? (t : Text) : Option Int := do
  let (hour, t) ← digits? 1 2 t
  let (minute, t) ← digits? 1 2 (← after? ':' t)
  let (second, t) ← digits? 1 2 (← after? ':' t)
  let (millis, t) : Nat × Text ←
    match after? '.' t with
    | none => some (0, t)
    | some fraction => do
      let digits := fraction.takeWhile Text.isDigit
      if digits.isEmpty then none
      some (Text.natOfDigits ((digits ++ "00").take 3), fraction.drop digits.length)
  let zone ← if t.isEmpty then some 0 else zone? (dropInlineBlanks t)
  return (hour * 3600000 + minute * 60000 + second * 1000 + millis : Nat) - zone * 60000

/-- Behind the date: nothing, or the separator and a time of day. -/
def timeOfDay? (t : Text) : Option Int :=
  match t with
  | [] => some 0
  | u :: rest =>
    if u == Text.unit 't' || u == Text.unit 'T' then clock? rest
    else if u == 0x20 || u == 0x09 then clock? (dropInlineBlanks rest)
    else none

/-- A date with an optional time of day, in milliseconds since 1970. A year below 100
belongs to the twentieth century. -/
def date? (t : Text) : Option Number := do
  let (year, t) ← digits? 4 4 t
  let (month, t) ← digits? 1 2 (← after? '-' t)
  let (day, t) ← digits? 1 2 (← after? '-' t)
  let time ← timeOfDay? t
  let year := if year < 100 then 1900 + year else year
  return .whole (Moment.daysOf year month day * Moment.dayLength + time)

/-! ## Plain scalars -/

/-- The value of a plain scalar in version 1.2. -/
def plain12 (t : Text) : Value :=
  if isNull t then null
  else
    match bool12? t, int12? t, float12? t with
    | some b, _, _ => bool b
    | none, some n, _ => number n
    | none, none, some n => number n
    | none, none, none => text t

/-- The value of a plain scalar in version 1.1, as a key or not. -/
def plain11 (asKey : Bool) (t : Text) : Value :=
  if isNull t then null
  else
    match bool11? t, int11? t <|> float11? t with
    | some b, _ => bool b
    | none, some n => number n
    | none, none =>
      if asKey && t == "<<" then merge
      else
        match sexagesimal? t, date? t with
        | some n, _ => number n
        | none, some ms => date ms
        | none, none => text t

/-- The value of a plain scalar. -/
def plain (version : Version) (asKey : Bool) (t : Text) : Value :=
  match version with
  | .v11 => plain11 asKey t
  | .v12 => plain12 t

end Value

end MetadataBlock.Yaml
