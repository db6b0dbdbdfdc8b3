import MetadataBlock.Data.Basic

/-!
# JSON text

Two layouts of one value: `Data.json` on one line without blanks, and
`Data.jsonPretty` with one item per line, indented by two spaces. NaN and the
infinities are written as `null`, zero without its sign. Fields named like an
index come first, in ascending order; the others keep their order.
-/

namespace MetadataBlock

namespace Json

/-- The short escape of a unit, if it has one. -/
def shortEscape? (u : UInt16) : Option Text :=
  if u == 0x22 then some [0x5C, 0x22]
  else if u == 0x5C then some [0x5C, 0x5C]
  else if u == 0x08 then some [0x5C, Text.unit 'b']
  else if u == 0x09 then some [0x5C, Text.unit 't']
  else if u == 0x0A then some [0x5C, Text.unit 'n']
  else if u == 0x0C then some [0x5C, Text.unit 'f']
  else if u == 0x0D then some [0x5C, Text.unit 'r']
  else none

/-- The numeric escape of a unit. -/
def unicodeEscape (u : UInt16) : Text :=
  [0x5C, Text.unit 'u'] ++ Text.hex4 u

/-- One unit inside a JSON string; a surrogate is passed only without its partner. -/
def escapeUnit (u : UInt16) : Text :=
  match shortEscape? u with
  | some e => e
  | none =>
    if u < 0x20 || Text.isHighSurrogate u || Text.isLowSurrogate u then unicodeEscape u else [u]

/-- The inside of a JSON string. -/
def escape : Text → Text
  | [] => []
  | [u] => escapeUnit u
  | u :: v :: rest =>
    if Text.isHighSurrogate u && Text.isLowSurrogate v then u :: v :: escape rest
    else escapeUnit u ++ escape (v :: rest)

/-- A JSON string. -/
def string (t : Text) : Text :=
  Text.doubleQuote :: escape t ++ [Text.doubleQuote]

/-- A JSON number. -/
def number (n : Number) : Text :=
  match n with
  | .nan | .infinity _ => "null"
  | n => n.text

/-- The index that a field name spells: a numeral below `2 ^ 32 - 1` without
leading zeros. -/
def index? (name : Text) : Option Nat :=
  if name.isEmpty || !name.all Text.isDigit || 10 < name.length then none
  else
    let n := Text.natOfDigits name
    if n < 4294967295 && Text.ofNat n == name then some n else none

/-- Fields named like an index in ascending order, then all others. -/
def orderFields {α : Type} (fields : List (Text × α)) : List (Text × α) :=
  let indexed := fields.filterMap fun f => (index? f.1).map fun i => (i, f)
  (indexed.mergeSort fun a b => a.1 ≤ b.1).map (·.2) ++ fields.filter fun f => (index? f.1).isNone

/-- No field is lost and none is written twice. -/
theorem perm_orderFields {α : Type} (fields : List (Text × α)) :
    (orderFields fields).Perm fields := by
  have hindexed : (fields.filterMap fun f => (index? f.1).map fun i => (i, f)).map (·.2)
      = fields.filter fun f => !(index? f.1).isNone := by
    induction fields with
    | nil => rfl
    | cons f fields ih =>
      rw [List.filterMap_cons, List.filter_cons]
      cases index? f.1 with
      | none => exact ih
      | some i => exact congrArg (f :: ·) ih
  have hsorted := (List.mergeSort_perm (fields.filterMap fun f => (index? f.1).map fun i => (i, f))
    fun a b => a.1 ≤ b.1).map (·.2)
  rw [hindexed] at hsorted
  exact (hsorted.append_right _).trans
    (List.perm_append_comm.trans (List.filter_append_perm (fun f => (index? f.1).isNone) fields))

end Json

namespace Data

open Json

/-- Is the value written at all where fields are listed? -/
def isPresent : Data → Bool
  | .absent => false
  | _ => true

/-- A line break with an indentation of two spaces a level. -/
def lineBreak (level : Nat) : Text :=
  Text.lineFeed :: List.replicate (2 * level) Text.space

mutual

/-- The JSON text on one line. -/
def json : Data → Text
  | .absent => "null"
  | .null => "null"
  | .bool b => if b then "true" else "false"
  | .number n => Json.number n
  | .integer n => Text.ofInt n
  | .date ms =>
    match Moment.ofNumber? ms with
    | some m => Json.string m.isoText
    | none => "null"
  | .text t => Json.string t
  | .list items => "[" ++ Text.joinWith "," (jsonItems items) ++ "]"
  | .object fields =>
    let written := (Json.orderFields (jsonFields fields)).map fun (name, value) => Json.string name ++ ":" ++ value
    "\x7b" ++ Text.joinWith "," written ++ "\x7d"
  | .set _ => "\x7b\x7d"

/-- The JSON texts of the items of a list. -/
def jsonItems : List Data → List Text
  | [] => []
  | item :: rest => json item :: jsonItems rest

/-- The JSON texts of the fields that are present. -/
def jsonFields : List (Text × Data) → List (Text × Text)
  | [] => []
  | (_, .absent) :: rest => jsonFields rest
  | (name, value) :: rest => (name, json value) :: jsonFields rest

end

/-- Lay out the parts of a list or object one per line, or together when there
are none. -/
def layOutLines (opening closing : Text) (level : Nat) (parts : List Text) : Text :=
  if parts.isEmpty then opening ++ closing
  else
    opening ++ lineBreak (level + 1) ++ Text.joinWith ("," ++ lineBreak (level + 1)) parts
      ++ lineBreak level ++ closing

mutual

/-- The JSON text over several lines, at an indentation level. -/
def jsonLines (level : Nat) : Data → Text
  | .list items => layOutLines "[" "]" level (jsonLinesItems (level + 1) items)
  | .object fields =>
    let written := (Json.orderFields (jsonLinesFields (level + 1) fields)).map fun (name, value) =>
      Json.string name ++ ": " ++ value
    layOutLines "\x7b" "\x7d" level written
  | d => json d

/-- The texts of the items of a list. -/
def jsonLinesItems (level : Nat) : List Data → List Text
  | [] => []
  | item :: rest => jsonLines level item :: jsonLinesItems level rest

/-- The texts of the fields that are present. -/
def jsonLinesFields (level : Nat) : List (Text × Data) → List (Text × Text)
  | [] => []
  | (_, .absent) :: rest => jsonLinesFields level rest
  | (name, value) :: rest => (name, jsonLines level value) :: jsonLinesFields level rest

end

/-- The JSON text with one item per line. -/
def jsonPretty (d : Data) : Text :=
  jsonLines 0 d

end Data

end MetadataBlock
