import MetadataBlock.Text.Utf8
import MetadataBlock.Yaml.ScalarText
import MetadataBlock.Yaml.Value

/-!
# Directives and tags

The directives before a document choose the version of YAML and the handles that
abbreviate tags. A tag decides what the text of a scalar means. Tags that are not
known are ignored; those for binary data, ordered maps and pairs are not known here.
-/

namespace MetadataBlock.Yaml

/-- What directives have set. -/
structure Directives where
  version : Version := .v12
  /-- Tag handles with what they abbreviate. -/
  handles : List (Text × Text) := [("!!", "tag:yaml.org,2002:")]

namespace Directives

/-- The words of a line. -/
def words (line : Text) : List Text :=
  (Text.splitOn Text.space (line.map fun u => if u == Text.tab then Text.space else u)).filter (!·.isEmpty)

/-- Two runs of digits with a point between them: a version that may be ignored. -/
def isVersionNumber (t : Text) : Bool :=
  match Text.splitOn (Text.unit '.') t with
  | [a, b] => Value.isRun Text.isDigit a && Value.isRun Text.isDigit b
  | _ => false

/-- Carry out a directive that stands at an offset. -/
def add (d : Directives) (line : Text) (offset : Nat) : Checked Directives :=
  match words (Text.trim line) with
  | name :: args =>
    if name == "%TAG" then
      match args with
      | [handle, expansion] => .ok { d with handles := (handle, expansion) :: d.handles }
      | _ => fault .tagDirectiveParts offset
    else if name == "%YAML" then
      match args with
      | [version] =>
        if version == "1.1" then .ok { d with version := .v11 }
        else if version == "1.2" then .ok { d with version := .v12 }
        else if isVersionNumber version then .ok d
        else fault (.unsupportedVersion version) (offset + 6)
      | _ => fault .yamlDirectiveParts offset
    else .ok d
  | [] => .ok d

end Directives

namespace Tag

/-- The bytes of a text in which `%` and two hexadecimal digits stand for a byte. -/
def percentBytes? : Text → Option (List UInt8)
  | [] => some []
  | u :: rest =>
    if u == Text.unit '%' then
      match rest with
      | a :: b :: rest => do
        let high ← Text.hexValue? a
        let low ← Text.hexValue? b
        return UInt8.ofNat (16 * high + low) :: (← percentBytes? rest)
      | _ => none
    else do
      return (Text.toUtf8 [u]).toList ++ (← percentBytes? rest)

/-- Carry out the `%` escapes of a text, if they are well-formed UTF-8. -/
def unescape? (t : Text) : Option Text := do
  let bytes ← percentBytes? t
  let decoded := Text.ofUtf8 bytes
  if (Text.toUtf8 decoded).toList == bytes then some decoded else none

/-- The name that a tag stands for; none for the tag `!` and for tags that are errors
only in a way that does not matter. The tag stands at an offset. -/
def name (d : Directives) (source : Text) (offset : Nat) : Checked Text := do
  let bang := Text.unit '!'
  if source == [bang] then return source
  if source.head? != some bang then fault (.invalidTag source) offset
  if source[1]? == some (Text.unit '<') then
    let verbatim := (source.drop 2).dropLast
    faultIf (verbatim == "!" || verbatim == "!!") (.verbatimTag source) offset
    faultIf (source.getLast? != some (Text.unit '>')) .unclosedTag offset
    return verbatim
  let suffix := (source.reverse.takeWhile (· != bang)).reverse
  let handle := source.take (source.length - suffix.length)
  faultIf suffix.isEmpty (.tagWithoutSuffix source) offset
  match (d.handles.lookup handle).filter (!·.isEmpty) with
  | some expansion =>
    match unescape? suffix with
    | some suffix => return expansion ++ suffix
    | none => fault .malformedTagSuffix offset
  | none =>
    faultIf (handle != [bang]) (.unresolvedHandle source) offset
    return source

/-- The tags of the standard. -/
def standard (name : Text) : Text :=
  "tag:yaml.org,2002:" ++ name

/-- The value of a scalar with a tag that stands at an offset. Where the text does not
suit the tag, it remains a text. -/
def valueOf (version : Version) (name value : Text) (offset : Nat) : Checked Value :=
  let orText (v : Option Value) : Checked Value := .ok (v.getD (.text value))
  let number (n : Option Number) : Checked Value := orText (n.map .number)
  let hasPoint := value.contains (Text.unit '.')
  if name == standard "null" then orText (if Value.isNull value then some .null else none)
  else if name == standard "bool" then
    orText ((match version with
      | .v11 => Value.bool11? value
      | .v12 => Value.bool12? value).map .bool)
  else if name == standard "int" then
    number (match version with
      | .v11 => Value.int11? value <|> (Value.sexagesimal? value).filter fun _ => !hasPoint
      | .v12 => Value.int12? value)
  else if name == standard "float" then
    number (match version with
      | .v11 => Value.float11? value <|> (Value.sexagesimal? value).filter fun _ => hasPoint
      | .v12 => Value.float12? value)
  else if name == standard "timestamp" then
    match version, Value.date? value with
    | _, some ms => .ok (.date ms)
    | .v12, none => fault .badTimestamp offset
    | .v11, none => .ok (.text value)
  else if name == standard "merge" then
    orText (if version == .v12 || value == "<<" then some .merge else none)
  else .ok (.text value)

end Tag

end MetadataBlock.Yaml
