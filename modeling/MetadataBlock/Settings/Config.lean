import MetadataBlock.Data.Json
import MetadataBlock.Lint.Run
import MetadataBlock.Settings.FatalError

/-!
# Settings

The settings of a run come from a configuration file and from the command line.
`LintConfig.ofData` checks untyped data against the expected shape and lists every
issue. On merging, lists of the command line are appended to those of the file,
and its other values replace the file's. The merged settings are checked again.
-/

namespace MetadataBlock

/-- Checked settings. -/
structure LintConfig where
  error : List Text := []
  warn : List Text := []
  skip : List Text := []
  warningExitCode : Number := 0
  minPrefixLength : Option Number := none
  typoThreshold : Option Number := none
  deriving DecidableEq

/-- Settings given on the command line. -/
structure CommandLineSettings where
  error : List Text := []
  warn : List Text := []
  skip : List Text := []
  warningExitCode : Option Number := none
  minPrefixLength : Option Number := none
  typoThreshold : Option Number := none
  deriving DecidableEq

namespace Settings

/-- A part of the data that does not have the expected shape. -/
structure Issue where
  path : List Text
  message : Text
  deriving DecidableEq

/-- The path, or the root, and the message. -/
def Issue.text (i : Issue) : Text :=
  let place : Text := if i.path.isEmpty then "(root)" else Text.joinWith "." i.path
  place ++ ": " ++ i.message

/-- The name of the kind of a value. -/
def kindName : Data → Text
  | .absent => "undefined"
  | .null => "null"
  | .bool _ => "boolean"
  | .number n => if n.isNan then "nan" else "number"
  | .integer _ => "bigint"
  | .date _ => "date"
  | .text _ => "string"
  | .list _ => "array"
  | .object _ => "object"
  | .set _ => "set"

/-- The issue of a value of the wrong kind. -/
def wrongKind (path : List Text) (expected : Text) (d : Data) : Issue :=
  match d with
  | .absent => ⟨path, "Required"⟩
  | d => ⟨path, "Expected " ++ expected ++ ", received " ++ kindName d⟩

/-- A value that was checked: what it is, or what is wrong with it. -/
structure Check (α : Type) where
  value : α
  issues : List Issue := []

/-- A rule identifier: a text that is not empty. -/
def checkIdentifier (path : List Text) (d : Data) : Check Text :=
  match d with
  | .text [] => ⟨[], [⟨path, "String must contain at least 1 character(s)"⟩]⟩
  | .text t => ⟨t, []⟩
  | d => ⟨[], [wrongKind path "string" d]⟩

/-- A list of rule identifiers; empty if it is absent. -/
def checkIdentifiers (name : Text) (d : Data) : Check (List Text) :=
  match d with
  | .absent => ⟨[], []⟩
  | .list items =>
    let checks := items.zipIdx.map fun (item, i) => checkIdentifier [name, Text.ofNat i] item
    ⟨checks.map (·.value), checks.flatMap (·.issues)⟩
  | d => ⟨[], [wrongKind [name] "array" d]⟩

/-- A bound on a number. -/
inductive Bound where
  | atLeast (n : Int)
  | atMost (n : Int)

/-- What is wrong with a number, as far as a bound goes. -/
def Bound.issue? (path : List Text) (x : Number) : Bound → Option Issue
  | atLeast n =>
    if x.atLeast n then none
    else some ⟨path, "Number must be greater than or equal to " ++ Text.ofInt n⟩
  | atMost n =>
    if x.atMost n then none
    else some ⟨path, "Number must be less than or equal to " ++ Text.ofInt n⟩

/-- An integer within bounds; nothing if it is absent. -/
def checkCount (name : Text) (bounds : List Bound) (d : Data) : Check (Option Number) :=
  match d with
  | .absent => ⟨none, []⟩
  | .number .nan => ⟨none, [wrongKind [name] "number" d]⟩
  | .number x =>
    let whole := if x.isWhole then [] else [⟨[name], "Expected integer, received float"⟩]
    ⟨some x, whole ++ bounds.filterMap (Bound.issue? [name] x)⟩
  | d => ⟨none, [wrongKind [name] "number" d]⟩

/-- The names of all settings. -/
def names : List Text :=
  ["error", "warn", "skip", "warningExitCode", "minPrefixLength", "typoThreshold"]

/-- The issue of fields that are no settings. -/
def unknownFields (fields : List (Text × Data)) : List Issue :=
  match ((Json.orderFields fields).map (·.1)).filter fun name => !names.contains name with
  | [] => []
  | unknown => [⟨[], "Unrecognized key(s) in object: " ++ Text.quotedList unknown⟩]

/-- Settings that were checked, with all issues in order. -/
def check (d : Data) : Check LintConfig :=
  match d with
  | .object fields =>
    let value (name : Text) : Data := (Data.field? fields name).getD .absent
    let error := checkIdentifiers "error" (value "error")
    let warn := checkIdentifiers "warn" (value "warn")
    let skip := checkIdentifiers "skip" (value "skip")
    let code := checkCount "warningExitCode" [.atLeast 0, .atMost 255] (value "warningExitCode")
    let length := checkCount "minPrefixLength" [.atLeast 0, .atLeast 1] (value "minPrefixLength")
    let threshold := checkCount "typoThreshold" [.atLeast 0] (value "typoThreshold")
    { value :=
        { error := error.value
          warn := warn.value
          skip := skip.value
          warningExitCode := code.value.getD 0
          minPrefixLength := length.value
          typoThreshold := threshold.value }
      issues := error.issues ++ warn.issues ++ skip.issues ++ code.issues ++ length.issues
        ++ threshold.issues ++ unknownFields fields }
  | d => ⟨{}, [wrongKind [] "object" d]⟩

end Settings

namespace LintConfig

/-- The settings that untyped data from a source spells. Nothing at all stands for the
defaults. -/
def ofData (d : Data) (source : Text) : Except FatalError LintConfig :=
  let d := match d with
    | .absent | .null => .object []
    | d => d
  let checked := Settings.check d
  match checked.issues with
  | [] => .ok checked.value
  | issues =>
    .error (.config ("Invalid " ++ source ++ ":\n" ++ Text.joinWith "\n" (issues.map (·.text))))

/-- Append the lists of the command line and let its other values replace the file's. -/
def merge (c : LintConfig) (s : CommandLineSettings) : LintConfig where
  error := c.error ++ s.error
  warn := c.warn ++ s.warn
  skip := c.skip ++ s.skip
  warningExitCode := s.warningExitCode.getD c.warningExitCode
  minPrefixLength := s.minPrefixLength <|> c.minPrefixLength
  typoThreshold := s.typoThreshold <|> c.typoThreshold

/-- The settings as untyped data. -/
def toData (c : LintConfig) : Data :=
  let texts (ts : List Text) : Data := .list (ts.map .text)
  let number (n : Option Number) : Data := (n.map Data.number).getD .absent
  .object
    [("error", texts c.error), ("warn", texts c.warn), ("skip", texts c.skip),
     ("warningExitCode", .number c.warningExitCode), ("minPrefixLength", number c.minPrefixLength),
     ("typoThreshold", number c.typoThreshold)]

/-- The overrides that the settings ask for. -/
def overrides (c : LintConfig) : Except FatalError Overrides :=
  match OverrideRequest.resolve ⟨c.error, c.warn, c.skip⟩ with
  | .ok overrides => .ok overrides
  | .error identifier => .error (.unknownRule identifier Catalog.identifiers)

/-- The limits of the search for typos; what is not set keeps its default. -/
def ruleSettings (c : LintConfig) : RuleSettings :=
  let defaults : RuleSettings := {}
  { minPrefixLength := (c.minPrefixLength.bind Number.toNat?).getD defaults.minPrefixLength
    typoThreshold := (c.typoThreshold.bind Number.floor?).getD defaults.typoThreshold }

/-- How documents are linted under the settings. -/
def lintOptions (c : LintConfig) : Except FatalError LintOptions := do
  return { overrides := ← c.overrides, settings := c.ruleSettings }

/-- The settings of a file together with those of the command line, checked again. -/
def withCommandLine (c : LintConfig) (s : CommandLineSettings) : Except FatalError LintConfig :=
  LintConfig.ofData (c.merge s).toData "command-line options"

end LintConfig

end MetadataBlock
