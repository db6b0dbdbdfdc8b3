import MetadataBlock.Text.Basic

/-!
# The grammar of a metadata block

A block has up to three sections, each opened by its keyword. The order of
`SectionKeyword.all` is the order in which sections are checked and written.
-/

namespace MetadataBlock

/-- The keywords that open a section. -/
inductive SectionKeyword where
  | metadataBlock
  | datasetField
  | controlledVocabulary
  deriving DecidableEq, Repr

namespace SectionKeyword

/-- All keywords in canonical order. -/
def all : List SectionKeyword := [metadataBlock, datasetField, controlledVocabulary]

/-- The keywords that no block can do without. -/
def requiredOnes : List SectionKeyword := [metadataBlock, datasetField]

def text : SectionKeyword → Text
  | metadataBlock => "metadataBlock"
  | datasetField => "datasetField"
  | controlledVocabulary => "controlledVocabulary"

/-- The keyword that a text spells. -/
def ofText? (t : Text) : Option SectionKeyword :=
  all.find? (·.text == t)

/-- The place of a keyword in canonical order. -/
def order : SectionKeyword → Nat
  | metadataBlock => 0
  | datasetField => 1
  | controlledVocabulary => 2

/-- The keys that every record of the section has to have. -/
def requiredKeys : SectionKeyword → List Text
  | metadataBlock => ["name", "displayName"]
  | datasetField =>
    ["name", "title", "description", "fieldType", "displayOrder", "advancedSearchField",
     "allowControlledVocabulary", "allowmultiples", "facetable", "displayoncreate", "required",
     "metadatablock_id"]
  | controlledVocabulary => ["DatasetField", "Value"]

/-- The keys that a record of the section may have. -/
def permissibleKeys : SectionKeyword → List Text
  | metadataBlock => ["name", "dataverseAlias", "displayName", "blockURI"]
  | datasetField =>
    ["name", "title", "description", "watermark", "fieldType", "displayOrder", "displayFormat",
     "advancedSearchField", "allowControlledVocabulary", "allowmultiples", "facetable",
     "displayoncreate", "required", "parent", "metadatablock_id", "termURI"]
  | controlledVocabulary => ["DatasetField", "Value", "identifier", "displayOrder"]

/-- The keys whose texts are checked for white space at the end. -/
def whitespaceCheckedKeys : SectionKeyword → List Text
  | metadataBlock => ["name", "dataverseAlias"]
  | datasetField =>
    ["name", "title", "description", "watermark", "fieldType", "parent", "metadatablock_id"]
  | controlledVocabulary => ["Value", "identifier"]

end SectionKeyword

/-- The place of any keyword in canonical order; unknown keywords come last. -/
def keywordOrder (keyword : Text) : Nat :=
  match SectionKeyword.ofText? keyword with
  | some k => k.order
  | none => SectionKeyword.all.length

/-- Do the rows of the section start with a column that holds no value? -/
def hasLeadingKeyColumn (keyword : Text) : Bool :=
  keyword != SectionKeyword.metadataBlock.text

end MetadataBlock
