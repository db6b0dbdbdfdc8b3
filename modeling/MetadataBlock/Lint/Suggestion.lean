import MetadataBlock.Document.Basic
import MetadataBlock.Names.Similarity
import MetadataBlock.Lint.Grammar

/-!
# Advice in messages

Messages that tell how to mend a violation. A rename is proposed when a valid
name is more than half similar.
-/

namespace MetadataBlock.Suggestion

/-- The similarity that a proposed name has to exceed. -/
def leastRatio : Rat := 1 / 2

/-- The closest candidate, if it is close enough. -/
def rename? (value : Text) (candidates : List Text) : Option Text :=
  match Similarity.closest? value candidates with
  | some (candidate, ratio) => if leastRatio < ratio then some candidate else none
  | none => none

/-- The key whose value names a record of the section. -/
def handleKey (keyword : Text) : Text :=
  if keyword == SectionKeyword.controlledVocabulary.text then "DatasetField" else "name"

/-- How a message refers to a record. -/
def describeRecord (record : Mapping) (keyword : Text) : Text :=
  match record.text? (handleKey keyword) with
  | some handle => Text.quoted handle
  | none =>
    match record.position with
    | some p => "the entry at line " ++ Text.ofNat p.line
    | none => "an unnamed entry"

/-- The distinct texts of a list, in order of their first occurrence. -/
def distinct (texts : List Text) : List Text :=
  texts.foldl (fun seen t => if seen.contains t then seen else seen ++ [t]) []

/-- The proposed rename or, without one, the list of all valid names. -/
def renameOr (value : Text) (candidates : List Text) (listing : Text) : Text :=
  match (rename? value candidates).filter (!·.isEmpty) with
  | some suggestion => "Did you mean " ++ Text.quoted suggestion ++ "?"
  | none => listing ++ Text.quotedList candidates

/-- What to do about one invalid keyword. -/
def invalidKeyword (keyword : Text) (permissible : List Text) : Text :=
  "Invalid keyword " ++ Text.quoted keyword ++ ". "
    ++ renameOr keyword permissible "Valid keywords are: "

/-- What to do about a list of keywords: every invalid one, then every missing one. -/
def fixKeywords (keywords permissible required : List Text) : Text :=
  let invalid := (distinct keywords).filter fun k => !permissible.contains k
  let missing := required.filter fun k => !keywords.contains k
  Text.joinWith "; "
    (invalid.map (invalidKeyword · permissible)
      ++ missing.map fun k => "Missing required keyword " ++ Text.quoted k)

/-- What to do about an invalid key of a record. -/
def fixKey (key : Text) (record : Mapping) (keyword : Text) (permissible : List Text) : Text :=
  "Invalid key " ++ Text.quoted key ++ " present for " ++ describeRecord record keyword
    ++ " in block " ++ Text.quoted keyword ++ ". "
    ++ renameOr key permissible "Permitted keys are: "

/-- What to do about keys that a record lacks. -/
def fixRequiredKeys (missing : List Text) (record : Mapping) (keyword : Text) : Text :=
  let noun : Text := if missing.length = 1 then "key" else "keys"
  "Missing required " ++ noun ++ " " ++ Text.quotedList missing ++ " for "
    ++ describeRecord record keyword ++ " in block " ++ Text.quoted keyword ++ "."

end MetadataBlock.Suggestion
