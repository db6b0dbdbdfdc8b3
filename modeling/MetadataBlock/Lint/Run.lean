import MetadataBlock.Lint.Override

/-!
# Linting a document

`lintDocument` runs the keyword rules and then, section by section in canonical
order, the block rules and the record rules of every record. An invalid set of
keywords does not stop the rest, so all defects show in one pass. `traceDocument`
lists the steps of the same run.
-/

namespace MetadataBlock

/-- One step of a run: level 1 for phases, level 2 for single rules. -/
structure TraceLine where
  level : Nat
  message : Text
  deriving DecidableEq

/-- How a document is linted. -/
structure LintOptions where
  overrides : Overrides := []
  settings : RuleSettings := {}
  deriving DecidableEq

/-- A section of a document. -/
structure Section where
  keyword : Text
  block : Node

/-- The sections in canonical order, sections of one place in source order. -/
def Mapping.sections (document : Document) : List Section :=
  (document.entries.map fun e => ⟨e.key, e.value⟩ : List Section).mergeSort fun a b =>
    keywordOrder a.keyword ≤ keywordOrder b.keyword

/-- The violations of several rules on one input, rule by rule. -/
def runRules {ι : Type} (rules : List (Rule ι)) (overrides : Overrides) (input : ι) :
    List Violation :=
  rules.flatMap fun rule => rule.apply overrides input

/-- The keyword rules on a document. -/
def lintKeywords (document : Document) (options : LintOptions) : List Violation :=
  runRules Catalog.topLevelRules options.overrides ⟨document.keys, document.position⟩

/-- The record rules on one record. -/
def lintRecord (keyword : Text) (record : Mapping) (options : LintOptions) : List Violation :=
  runRules Catalog.recordRules options.overrides ⟨keyword, record, options.settings⟩

/-- The rules on one section and on its records. -/
def lintSection (s : Section) (options : LintOptions) : List Violation :=
  runRules Catalog.blockRules options.overrides ⟨s.keyword, s.block, options.settings⟩
    ++ s.block.records.flatMap fun record => lintRecord s.keyword record options

/-- All violations of a document in the order of their discovery. -/
def lintDocument (document : Document) (options : LintOptions) : List Violation :=
  lintKeywords document options ++ document.sections.flatMap fun s => lintSection s options

/-! ## Tracing -/

/-- The steps of running several rules. -/
def traceRules {ι : Type} (rules : List (Rule ι)) (overrides : Overrides) : List TraceLine :=
  rules.map fun rule =>
    match rule.resolve overrides with
    | .skipped => ⟨2, "Skipping lint: " ++ rule.name.text⟩
    | .active _ => ⟨2, "Running lint: " ++ rule.name.text⟩

/-- The steps of linting one section. -/
def traceSection (s : Section) (options : LintOptions) : List TraceLine :=
  ⟨1, "Validating entries for " ++ s.keyword⟩ :: traceRules Catalog.blockRules options.overrides
    ++ s.block.records.flatMap fun _ => traceRules Catalog.recordRules options.overrides

/-- The steps of linting a document. -/
def traceDocument (document : Document) (options : LintOptions) : List TraceLine :=
  ⟨1, "Validating top-level keywords: " ++ Text.joinWith ", " document.keys⟩
    :: traceRules Catalog.topLevelRules options.overrides
    ++ document.sections.flatMap fun s => traceSection s options

end MetadataBlock
