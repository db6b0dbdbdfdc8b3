import MetadataBlock.Text.Basic

/-!
# UTF-8

Files hold bytes. `Text.ofUtf8` reads every byte string: an ill-formed sequence
becomes one U+FFFD per longest part that could still have begun a character, and
a byte order mark stays. `Text.toUtf8` writes a text; a surrogate without its
partner is written as U+FFFD.
-/

namespace MetadataBlock.Text

/-- What a leading byte announces: the number of continuation bytes, the payload
bits it carries, and the range its first continuation byte has to lie in. -/
structure Utf8Lead where
  continuation : Nat
  payload : Nat
  low : UInt8
  high : UInt8

/-- The announcement of a leading byte beyond ASCII, if it may lead at all. -/
def Utf8Lead.ofByte? (b : UInt8) : Option Utf8Lead :=
  if 0xC2 ≤ b && b ≤ 0xDF then some ⟨1, b.toNat - 0xC0, 0x80, 0xBF⟩
  else if b == 0xE0 then some ⟨2, 0, 0xA0, 0xBF⟩
  else if b == 0xED then some ⟨2, 0xD, 0x80, 0x9F⟩
  else if 0xE1 ≤ b && b ≤ 0xEF then some ⟨2, b.toNat - 0xE0, 0x80, 0xBF⟩
  else if b == 0xF0 then some ⟨3, 0, 0x90, 0xBF⟩
  else if 0xF1 ≤ b && b ≤ 0xF3 then some ⟨3, b.toNat - 0xF0, 0x80, 0xBF⟩
  else if b == 0xF4 then some ⟨3, 4, 0x80, 0x8F⟩
  else none

/-- The units of a code point. -/
def unitsOfPoint (n : Nat) : Text :=
  if n < 0x10000 then [UInt16.ofNat n]
  else [UInt16.ofNat (0xD800 + (n - 0x10000) / 0x400), UInt16.ofNat (0xDC00 + (n - 0x10000) % 0x400)]

/-- Where a decoder stands between two bytes: at a character's start, or with
continuation bytes still to come. -/
inductive Utf8State where
  | start
  | inside (remaining point : Nat) (low high : UInt8)

/-- Take one byte at a character's start. -/
def Utf8State.lead (b : UInt8) : Text × Utf8State :=
  if b < 0x80 then ([b.toUInt16], .start)
  else
    match Utf8Lead.ofByte? b with
    | some l => ([], .inside l.continuation l.payload l.low l.high)
    | none => ([replacement], .start)

/-- Take one byte: the units it completes and the state after it. -/
def Utf8State.step (s : Utf8State) (b : UInt8) : Text × Utf8State :=
  match s with
  | .start => lead b
  | .inside remaining point low high =>
    if low ≤ b && b ≤ high then
      let point := point * 0x40 + (b.toNat - 0x80)
      if remaining ≤ 1 then (unitsOfPoint point, .start)
      else ([], .inside (remaining - 1) point 0x80 0xBF)
    else
      let (units, s') := lead b
      (replacement :: units, s')

/-- Decode from a state on. -/
def decodeUtf8 (s : Utf8State) : List UInt8 → Text
  | [] =>
    match s with
    | .start => []
    | .inside .. => [replacement]
  | b :: bytes =>
    let (units, s') := s.step b
    units ++ decodeUtf8 s' bytes

/-- The text that a byte string holds. -/
def ofUtf8 (bytes : List UInt8) : Text :=
  decodeUtf8 .start bytes

/-- The bytes of a text. -/
def toUtf8 (t : Text) : ByteArray :=
  (toString t).toUTF8

end MetadataBlock.Text
