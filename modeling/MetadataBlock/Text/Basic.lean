/-!
# Text as code units

Every length, position and shared beginning in this library counts UTF-16 code
units, so a text is the list of its units and a character outside the basic
plane takes two of them.

- `Text`: the list of code units, with a coercion from string literals;
- `Text.isBlank`, `Text.trim`: the white space that surrounds a value;
- `Text.splitOn`, `Text.joinWith`: cutting at a separator and its inverse;
- `Text.ofNat`, `Text.ofInt`: decimal numerals.
-/

namespace MetadataBlock

/-- A text is the list of its UTF-16 code units. -/
abbrev Text := List UInt16

namespace Text

/-- The units of one character: itself, or its surrogate pair. -/
def unitsOf (c : Char) : List UInt16 :=
  let n := c.toNat
  if n < 0x10000 then [UInt16.ofNat n]
  else [UInt16.ofNat (0xD800 + (n - 0x10000) / 0x400), UInt16.ofNat (0xDC00 + (n - 0x10000) % 0x400)]

/-- The text of a string. -/
def ofString (s : String) : Text :=
  s.toList.flatMap unitsOf

instance : Coe String (List UInt16) := ⟨ofString⟩

/-- The unit of a character of the basic plane. -/
def unit (c : Char) : UInt16 :=
  UInt16.ofNat c.toNat

/-- Does the unit open a surrogate pair? -/
def isHighSurrogate (u : UInt16) : Bool :=
  0xD800 ≤ u && u < 0xDC00

/-- Does the unit close a surrogate pair? -/
def isLowSurrogate (u : UInt16) : Bool :=
  0xDC00 ≤ u && u < 0xE000

/-- The code point of a surrogate pair. -/
def pairValue (high low : UInt16) : Nat :=
  0x10000 + (high.toNat - 0xD800) * 0x400 + (low.toNat - 0xDC00)

/-- The characters of a text; a surrogate without its partner reads as U+FFFD. -/
def toChars : Text → List Char
  | [] => []
  | [u] => [if isHighSurrogate u || isLowSurrogate u then Char.ofNat 0xFFFD else Char.ofNat u.toNat]
  | u :: v :: rest =>
    if isHighSurrogate u && isLowSurrogate v then
      Char.ofNat (pairValue u v) :: toChars rest
    else if isHighSurrogate u || isLowSurrogate u then
      Char.ofNat 0xFFFD :: toChars (v :: rest)
    else
      Char.ofNat u.toNat :: toChars (v :: rest)

/-- The string of a text, see `toChars`. -/
def toString (t : Text) : String :=
  String.ofList (toChars t)

/-! ## Units with a role -/

def tab : UInt16 := 0x09
def lineFeed : UInt16 := 0x0A
def carriageReturn : UInt16 := 0x0D
def space : UInt16 := 0x20
def doubleQuote : UInt16 := 0x22
def singleQuote : UInt16 := 0x27
def backslash : UInt16 := 0x5C
def byteOrderMark : UInt16 := 0xFEFF
def replacement : UInt16 := 0xFFFD

/-- Is the unit a decimal digit? -/
def isDigit (u : UInt16) : Bool :=
  0x30 ≤ u && u ≤ 0x39

/-- The value of a decimal digit. -/
def digitValue (u : UInt16) : Nat :=
  u.toNat - 0x30

/-- The value of a hexadecimal digit of either case. -/
def hexValue? (u : UInt16) : Option Nat :=
  if isDigit u then some (u.toNat - 0x30)
  else if 0x41 ≤ u && u ≤ 0x46 then some (u.toNat - 0x37)
  else if 0x61 ≤ u && u ≤ 0x66 then some (u.toNat - 0x57)
  else none

/-- Is the unit an ASCII letter? -/
def isLetter (u : UInt16) : Bool :=
  (0x41 ≤ u && u ≤ 0x5A) || (0x61 ≤ u && u ≤ 0x7A)

/-- White space: the ASCII blanks, the spaces of the Unicode class Zs, the line
and paragraph separators and the byte order mark. -/
def isBlank (u : UInt16) : Bool :=
  (0x09 ≤ u && u ≤ 0x0D) || u == 0x20 || u == 0xA0 || u == 0x1680
    || (0x2000 ≤ u && u ≤ 0x200A) || u == 0x2028 || u == 0x2029 || u == 0x202F
    || u == 0x205F || u == 0x3000 || u == 0xFEFF

/-! ## Trimming and letter case -/

def trimStart (t : Text) : Text :=
  t.dropWhile isBlank

def trimEnd (t : Text) : Text :=
  (t.reverse.dropWhile isBlank).reverse

/-- The text without the white space at its two ends. -/
def trim (t : Text) : Text :=
  trimEnd (trimStart t)

/-- Does the text hold nothing but white space? -/
def isAllBlank (t : Text) : Bool :=
  t.all isBlank

/-- Lower case of an ASCII letter. -/
def lowerUnit (u : UInt16) : UInt16 :=
  if 0x41 ≤ u && u ≤ 0x5A then u + 0x20 else u

/-- The text with its ASCII letters in lower case. -/
def lowerAscii (t : Text) : Text :=
  t.map lowerUnit

/-- Lower case as far as it can produce ASCII: besides the ASCII letters only the
Kelvin sign has an ASCII letter as its lower case. -/
def lower (t : Text) : Text :=
  t.map fun u => if u == 0x212A then 0x6B else lowerUnit u

/-- Upper case of an ASCII letter, unit by unit. -/
def upperAscii (t : Text) : Text :=
  t.map fun u => if 0x61 ≤ u && u ≤ 0x7A then u - 0x20 else u

/-! ## Cutting and joining -/

/-- The pieces between the occurrences of a separator; always at least one. -/
def splitOn (sep : UInt16) : Text → List Text
  | [] => [[]]
  | u :: rest =>
    if u == sep then [] :: splitOn sep rest
    else
      match splitOn sep rest with
      | [] => [[u]]
      | piece :: pieces => (u :: piece) :: pieces

/-- The parts with a separator between neighbours. -/
def joinWith (sep : Text) (parts : List Text) : Text :=
  List.intercalate sep parts

/-- The first line of a text, without its line feed. -/
def firstLine (t : Text) : Text :=
  t.takeWhile (· != lineFeed)

/-- The text, filled up with spaces to a width. -/
def padEnd (width : Nat) (t : Text) : Text :=
  t ++ List.replicate (width - t.length) space

/-- The value between single quotes. -/
def quoted (t : Text) : Text :=
  "'" ++ t ++ "'"

/-- The values between single quotes, separated by commas. -/
def quotedList (values : List Text) : Text :=
  joinWith ", " (values.map quoted)

/-- The quotes around a value belong to what stands before and behind it. -/
theorem append_quoted_append (front t back : Text) :
    front ++ quoted t ++ back = (front ++ "'") ++ t ++ ("'" ++ back) := by
  rw [quoted]
  simp only [List.append_assoc]

theorem quotedList_eq (values : List Text) :
    quotedList values = List.intercalate (", " : Text) (values.map fun t => "'" ++ t ++ "'") := rfl

/-! ## Numerals -/

/-- The decimal numeral of a natural number. -/
def ofNat (n : Nat) : Text :=
  if n < 10 then [UInt16.ofNat (0x30 + n)]
  else ofNat (n / 10) ++ [UInt16.ofNat (0x30 + n % 10)]

/-- The decimal numeral of an integer. -/
def ofInt : Int → Text
  | .ofNat n => ofNat n
  | .negSucc n => unit '-' :: ofNat (n + 1)

/-- The number written by a run of decimal digits. -/
def natOfDigits (t : Text) : Nat :=
  t.foldl (fun n u => 10 * n + digitValue u) 0

/-- The numeral, filled up with zeros on the left to a width. -/
def ofNatPadded (width n : Nat) : Text :=
  let digits := ofNat n
  List.replicate (width - digits.length) (unit '0') ++ digits

/-- One lower-case hexadecimal digit. -/
def hexDigit (n : Nat) : UInt16 :=
  if n < 10 then UInt16.ofNat (0x30 + n) else UInt16.ofNat (0x57 + n)

/-- The four hexadecimal digits of a unit. -/
def hex4 (u : UInt16) : Text :=
  let n := u.toNat
  [hexDigit (n / 0x1000), hexDigit (n / 0x100 % 0x10), hexDigit (n / 0x10 % 0x10), hexDigit (n % 0x10)]

end Text

end MetadataBlock
