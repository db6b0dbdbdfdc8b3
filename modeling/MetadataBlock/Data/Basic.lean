import MetadataBlock.Data.Date

/-!
# Untyped data

`Data` is what a configuration file or a report consists of before anything is
known about its shape. Objects keep their fields in order.
-/

namespace MetadataBlock

/-- A value of unknown shape. -/
inductive Data where
  /-- No value at all; a field holding it counts as absent. -/
  | absent
  | null
  | bool (b : Bool)
  | number (n : Number)
  | integer (n : Int)
  | date (millis : Number)
  | text (t : Text)
  | list (items : List Data)
  | object (fields : List (Text × Data))
  /-- An unordered collection of keys. -/
  | set (members : List Data)
  deriving Inhabited

namespace Data

/-- The value of the first field with a name. -/
def field? (fields : List (Text × Data)) (name : Text) : Option Data :=
  (fields.find? (·.1 == name)).map (·.2)

/-- Set a field: a known name keeps its place. -/
def setField (fields : List (Text × Data)) (name : Text) (value : Data) : List (Text × Data) :=
  if fields.any (·.1 == name) then
    fields.map fun (n, v) => if n == name then (n, value) else (n, v)
  else fields ++ [(name, value)]

mutual

/-- The text that stands for a value where a text is expected. Items of a list are
separated by commas, an absent or null item leaving nothing. -/
def display : Data → Text
  | .absent => "undefined"
  | .null => "null"
  | .bool b => if b then "true" else "false"
  | .number n => n.text
  | .integer n => Text.ofInt n
  | .date ms =>
    match Moment.ofNumber? ms with
    | some m => m.longText
    | none => "Invalid Date"
  | .text t => t
  | .list items => Text.joinWith "," (displayItems items)
  | .object _ => "[object Object]"
  | .set _ => "[object Set]"

/-- The texts of the items of a list. -/
def displayItems : List Data → List Text
  | [] => []
  | .absent :: rest => [] :: displayItems rest
  | .null :: rest => [] :: displayItems rest
  | item :: rest => display item :: displayItems rest

end

end Data

end MetadataBlock
