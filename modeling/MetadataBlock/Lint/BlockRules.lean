import MetadataBlock.Lint.Rule
import MetadataBlock.Lint.Grammar
import MetadataBlock.Names.Typo

/-!
# Rules on the content of one section

`groupBy` collects the records that share a derived key; the rules on names and
titles report each group of two or more once, at its first record.
-/

namespace MetadataBlock.BlockRules

/-- Add an element to the group of its key; a new key opens a group at the end. -/
def addToGroup {κ α : Type} [DecidableEq κ] (groups : List (κ × List α)) (key : κ) (a : α) :
    List (κ × List α) :=
  if groups.any (·.1 = key) then
    groups.map fun g => if g.1 = key then (g.1, g.2 ++ [a]) else g
  else groups ++ [(key, [a])]

/-- Group the elements that have a key, in order of first occurrence. -/
def groupBy {κ α : Type} [DecidableEq κ] (keyOf : α → Option κ) (elements : List α) :
    List (κ × List α) :=
  elements.foldl (fun groups a =>
    match keyOf a with
    | some key => addToGroup groups key a
    | none => groups) []

/-- The lines of the records that have a position. -/
def linesText (records : List Mapping) : Text :=
  Text.joinWith ", "
    (records.filterMap fun r => r.position.map fun p => "line " ++ Text.ofNat p.line)

/-- The lines after a colon, or nothing if none is known. -/
def linesSuffix (records : List Mapping) : Text :=
  let lines := linesText records
  if lines.isEmpty then [] else ": " ++ lines

/-- The position of the first record. -/
def firstPosition (records : List Mapping) : Option Position :=
  records.head?.bind (·.position)

/-- The parent of a record; an empty text means no parent. -/
def parent? (record : Mapping) : Option Text :=
  (record.text? "parent").filter (!·.isEmpty)

/-- The title of a record with its parent. -/
def titleWithParent? (record : Mapping) : Option (Text × Option Text) :=
  (record.text? "title").map fun title => (title, parent? record)

/-- A section is a list, and its items are mappings. -/
def isList : Rule BlockInput where
  name := .blockIsList
  code := "b002"
  scope := .block
  defaultSeverity := .error
  description := "Each section holds a list of entries"
  run severity input :=
    match input.block with
    | .list items _ =>
      (items.zipIdx 1).filterMap fun (item, place) =>
        if item.isMapping then none
        else
          some (.atPosition severity (.rule .blockIsList)
            ("Entry " ++ Text.ofNat place ++ " of block " ++ Text.quoted input.keyword
              ++ " is not a mapping of keys to values.") item.position)
    | block =>
      [.atPosition severity (.rule .blockIsList)
        ("Block " ++ Text.quoted input.keyword ++ " is not a list of entries.") block.position]

/-- What is said about the records that share a name. -/
def nameMessage (name : Text) (records : List Mapping) : Text :=
  "Name " ++ Text.quoted name ++ " occurs " ++ Text.ofNat records.length ++ " times"
    ++ linesSuffix records ++ ". Names have to be unique."

/-- In the first two sections no two records share a name. -/
def uniqueNames : Rule BlockInput where
  name := .uniqueNames
  code := "b001"
  scope := .block
  defaultSeverity := .error
  description := "Each 'name' is used only once in metadataBlock and datasetField"
  run severity input :=
    match SectionKeyword.ofText? input.keyword with
    | some .metadataBlock | some .datasetField =>
      (groupBy (·.text? "name") input.block.records).filterMap fun (name, records) =>
        if 2 ≤ records.length then
          some (.atPosition severity (.rule .uniqueNames) (nameMessage name records)
            (firstPosition records))
        else none
    | _ => []

/-- What is said about the records that share a title below one parent. -/
def titleMessage (title : Text) (parent : Option Text) (records : List Mapping) : Text :=
  let under : Text :=
    match parent with
    | some p => " under parent " ++ Text.quoted p
    | none => []
  "Title " ++ Text.quoted title ++ " occurs " ++ Text.ofNat records.length ++ " times" ++ under
    ++ linesSuffix records ++ ". Titles should be unique."

/-- No two fields below the same parent share a title, so that compound fields may
reuse titles. -/
def uniqueTitles : Rule BlockInput where
  name := .uniqueTitles
  code := "b003"
  scope := .block
  defaultSeverity := .error
  description := "Each 'title' is used only once per parent in datasetField"
  run severity input :=
    match SectionKeyword.ofText? input.keyword with
    | some .datasetField =>
      (groupBy titleWithParent? input.block.records).filterMap fun ((title, parent), records) =>
        if 2 ≤ records.length then
          some (.atPosition severity (.rule .uniqueTitles) (titleMessage title parent records)
            (firstPosition records))
        else none
    | _ => []

/-- The first record of every name, in order. -/
def firstByName (records : List Mapping) : List (Text × Mapping) :=
  records.foldl (fun named r =>
    match r.text? "name" with
    | some name => if named.any (·.1 == name) then named else named ++ [(name, r)]
    | none => named) []

/-- What is said about a name that looks misspelt. -/
def typoMessage (name : Text) (intended : Typo.Family UInt16) : Text :=
  "Name " ++ Text.quoted name ++ " might contain a typo: its prefix is close to "
    ++ Text.quoted intended.stem ++ " shared by " ++ Text.quotedList intended.members ++ "."

/-- No field name looks like a misspelling of a beginning that others share. -/
def namePrefixTypos : Rule BlockInput where
  name := .namePrefixTypos
  code := "b004"
  scope := .block
  defaultSeverity := .warning
  description := "Field names in datasetField do not look like typos of a shared prefix"
  run severity input :=
    match SectionKeyword.ofText? input.keyword with
    | some .datasetField =>
      let named := firstByName input.block.records
      (Typo.suspicions (named.map (·.1)) input.settings.minPrefixLength
        input.settings.typoThreshold).map fun s =>
          let name := s.suspect.members.headD s.suspect.stem
          .atPosition severity (.rule .namePrefixTypos) (typoMessage name s.intended)
            ((named.find? (·.1 == name)).bind (·.2.position))
    | _ => []

end MetadataBlock.BlockRules
