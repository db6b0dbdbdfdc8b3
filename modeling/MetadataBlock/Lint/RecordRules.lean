import MetadataBlock.Lint.BlockRules
import MetadataBlock.Lint.Suggestion

/-!
# Rules on one record
-/

namespace MetadataBlock.RecordRules

open BlockRules (parent?)

/-- What a rule reports about a record of an unknown section. -/
def invalidKeyword (rule : RuleName) (severity : Severity) (input : RecordInput) : Violation :=
  .atPosition severity (.rule rule)
    ("Cannot check entry for invalid keyword " ++ Text.quoted input.keyword ++ ". Skipping entry.")
    input.record.position

/-- A record has every key that its section requires. -/
def requiredKeysPresent : Rule RecordInput where
  name := .requiredKeysPresent
  code := "e002"
  scope := .record
  defaultSeverity := .error
  description := "Entries provide every key required for their section"
  run severity input :=
    match SectionKeyword.ofText? input.keyword with
    | none => [invalidKeyword .requiredKeysPresent severity input]
    | some k =>
      match k.requiredKeys.filter fun key => (input.record.entry? key).isNone with
      | [] => []
      | missing =>
        [.atPosition severity (.rule .requiredKeysPresent)
          (Suggestion.fixRequiredKeys missing input.record input.keyword) input.record.position]

/-- A record has no key that its section does not permit. -/
def keysValid : Rule RecordInput where
  name := .keysValid
  code := "e001"
  scope := .record
  defaultSeverity := .error
  description := "Entries only use keys permitted for their section"
  run severity input :=
    match SectionKeyword.ofText? input.keyword with
    | none => [invalidKeyword .keysValid severity input]
    | some k =>
      (input.record.entries.filter fun e => !k.permissibleKeys.contains e.key).map fun e =>
        .atPosition severity (.rule .keysValid)
          (Suggestion.fixKey e.key input.record input.keyword k.permissibleKeys)
          (e.keyPosition <|> e.value.position <|> input.record.position)

/-- The values of a record are scalars. -/
def noSubstructures : Rule RecordInput where
  name := .noSubstructures
  code := "e003"
  scope := .record
  defaultSeverity := .error
  description := "Entry values are plain strings, booleans or numbers"
  run severity input :=
    (input.record.entries.filter fun e => !e.value.isScalar).map fun e =>
      .atPosition severity (.rule .noSubstructures)
        ("Key " ++ Text.quoted e.key ++ " in block " ++ Text.quoted input.keyword
          ++ " has a substructure of type " ++ e.value.kindName
          ++ ". Only strings, booleans and numbers are allowed here.")
        (e.value.position <|> input.record.position)

/-- Does the text end in a space or a tab? -/
def endsInBlank (t : Text) : Bool :=
  match t.getLast? with
  | some u => u == Text.space || u == Text.tab
  | none => false

/-- What is reported about the value of a key, if it is a text that ends in a blank. -/
def trailingSpace? (severity : Severity) (record : Mapping) (key : Text) : Option Violation :=
  match record.scalarAt? key with
  | some (.text t, position) =>
    if endsInBlank t then
      some (.atPosition severity (.rule .noTrailingSpaces)
        ("The value " ++ Text.quoted t ++ " of key " ++ Text.quoted key
          ++ " has one or more trailing spaces.") (position <|> record.position))
    else none
  | _ => none

/-- No checked text ends in a blank. -/
def noTrailingSpaces : Rule RecordInput where
  name := .noTrailingSpaces
  code := "e004"
  scope := .record
  defaultSeverity := .warning
  description := "Text values do not end in whitespace"
  run severity input :=
    match SectionKeyword.ofText? input.keyword with
    | none => []
    | some k => k.whitespaceCheckedKeys.filterMap (trailingSpace? severity input.record)

/-- Does the record hold a certain truth value under a key? -/
def holdsBool (record : Mapping) (key : Text) (b : Bool) : Bool :=
  record.scalar? key == some (.bool b)

/-- Is the record a field below a parent that allows several values and uses, or
does not use, a controlled vocabulary? -/
def isNestedMultiple (input : RecordInput) (vocabulary : Bool) : Bool :=
  SectionKeyword.ofText? input.keyword == some .datasetField && (parent? input.record).isSome
    && holdsBool input.record "allowmultiples" true
    && holdsBool input.record "allowControlledVocabulary" vocabulary

/-- The rule, under a given name, against nested fields that allow several values and
use, or do not use, a controlled vocabulary. -/
def nestedCompound (name : RuleName) (code : Text) (vocabulary : Bool) : Rule RecordInput where
  name := name
  code := code
  scope := .record
  defaultSeverity := if vocabulary then .error else .warning
  description :=
    if vocabulary then "Nested fields allowing multiple values do not use a controlled vocabulary"
    else "Nested fields allowing multiple values use a controlled vocabulary"
  run severity input :=
    if isNestedMultiple input vocabulary then
      let detail : Text :=
        if vocabulary then "with a controlled vocabulary, which is not supported"
        else "without a controlled vocabulary, which cannot be entered in the user interface"
      [.atPosition severity (.rule name)
        ("The entry " ++ Suggestion.describeRecord input.record input.keyword
          ++ " allows multiple values in a nested field " ++ detail ++ ".")
        ((input.record.scalarAt? "allowmultiples").bind (·.2) <|> input.record.position)]
    else []

/-- Nested fields with several values use a controlled vocabulary. -/
def nestedCompoundMetadata : Rule RecordInput :=
  nestedCompound .nestedCompoundMetadata "e005" false

/-- Nested fields with several values do not use a controlled vocabulary. -/
def nestedCompoundMetadataControlledVocab : Rule RecordInput :=
  nestedCompound .nestedCompoundMetadataControlledVocab "e006" true

end MetadataBlock.RecordRules
