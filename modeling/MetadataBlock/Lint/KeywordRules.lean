import MetadataBlock.Lint.Rule
import MetadataBlock.Lint.Suggestion

/-!
# Rules on the list of section keywords
-/

namespace MetadataBlock.KeywordRules

open Suggestion (distinct)

/-- The valid keywords as texts. -/
def validKeywords : List Text := SectionKeyword.all.map (·.text)

/-- The required keywords as texts. -/
def requiredKeywords : List Text := SectionKeyword.requiredOnes.map (·.text)

/-- Do the keywords, as a set, equal a list without repetitions? -/
def formSet (keywords expected : List Text) : Bool :=
  (distinct keywords).length == expected.length && expected.all (keywords.contains ·)

/-- The keywords are the valid ones, or just the required ones. -/
def valid : Rule KeywordsInput where
  name := .keywordsValid
  code := "k001"
  scope := .topLevel
  defaultSeverity := .error
  description := "Section keywords are spelled correctly and form a complete set"
  run severity input :=
    if formSet input.keywords validKeywords || formSet input.keywords requiredKeywords then []
    else
      [.atPosition severity (.rule .keywordsValid)
        (Suggestion.fixKeywords input.keywords validKeywords requiredKeywords) input.position]

/-- The texts that occur more than once, in order of their second occurrence. -/
def repeated (texts : List Text) : List Text :=
  go [] [] texts
where
  /-- Collect repetitions, given the texts seen and the repetitions found so far. -/
  go (seen found : List Text) : List Text → List Text
    | [] => found
    | t :: rest =>
      if seen.contains t then go seen (if found.contains t then found else found ++ [t]) rest
      else go (t :: seen) found rest

/-- No keyword is given twice. -/
def unique : Rule KeywordsInput where
  name := .keywordsUnique
  code := "k002"
  scope := .topLevel
  defaultSeverity := .error
  description := "No section keyword is given twice"
  run severity input :=
    match repeated input.keywords with
    | [] => []
    | duplicates =>
      [.atPosition severity (.rule .keywordsUnique)
        ("Keyword list contains duplicate keys: " ++ Text.quotedList duplicates ++ ".")
        input.position]

end MetadataBlock.KeywordRules
