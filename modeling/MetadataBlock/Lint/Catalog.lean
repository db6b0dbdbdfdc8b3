import MetadataBlock.Lint.KeywordRules
import MetadataBlock.Lint.RecordRules

/-!
# The catalog of rules

All rules in the order in which they run, and the look-up of a rule by name or
code.
-/

namespace MetadataBlock.Catalog

def topLevelRules : List (Rule KeywordsInput) :=
  [KeywordRules.valid, KeywordRules.unique]

def blockRules : List (Rule BlockInput) :=
  [BlockRules.isList, BlockRules.uniqueNames, BlockRules.uniqueTitles, BlockRules.namePrefixTypos]

def recordRules : List (Rule RecordInput) :=
  [RecordRules.requiredKeysPresent, RecordRules.keysValid, RecordRules.noSubstructures,
   RecordRules.noTrailingSpaces, RecordRules.nestedCompoundMetadata,
   RecordRules.nestedCompoundMetadataControlledVocab]

/-- What is known of every rule, in catalog order. -/
def infos : List RuleInfo :=
  topLevelRules.map (·.toRuleInfo) ++ blockRules.map (·.toRuleInfo)
    ++ recordRules.map (·.toRuleInfo)

/-- The rule with a name or, if there is none, with a code in any letter case. -/
def find? (identifier : Text) : Option RuleInfo :=
  (infos.find? (·.name.text == identifier)).orElse fun _ =>
    infos.find? (·.code == Text.lower identifier)

/-- Every name and code, rule by rule. -/
def identifiers : List Text :=
  infos.flatMap fun rule => [rule.name.text, rule.code]

end MetadataBlock.Catalog
