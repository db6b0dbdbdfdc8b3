import MetadataBlock.Proofs.ErrorRules
import MetadataBlock.Proofs.SimilarityRatio

/-!
# What is said about keywords

The rule on keywords objects to a list exactly if there is something to be said about it: a
keyword is unknown or a required one is missing. The rule compares sets and the message goes
through the keywords one by one.

- `rename?_eq_some_iff`, `rename?_eq_none_iff`: the rename of a name that is not valid;
- `fixKeywords_ne_nil_iff`: when there is something to be said;
- `valid_run_ne_nil_iff`: when the rule objects;
- `UnknownKeywords`, `Advises`, `Explains`: what the message is made of;
- `valid_run_explains`: the rule and its message.
-/

namespace MetadataBlock

open Similarity (FirstClosest ratio exists_closest)

namespace Text

/-- Joining leaves nothing only where there is nothing to join, if no part is empty. -/
theorem joinWith_eq_nil_iff (sep : Text) {parts : List Text} (h : ∀ part ∈ parts, part ≠ []) :
    joinWith sep parts = [] ↔ parts = [] := by
  constructor
  · intro hnil
    match parts with
    | [] => rfl
    | part :: parts =>
      -- the first part is the beginning of the whole
      have hfirst := h part List.mem_cons_self
      cases parts with
      | nil => exact absurd (by simpa [joinWith] using hnil) hfirst
      | cons next parts =>
        exact absurd hnil (by simp [joinWith, List.intercalate_cons_cons, hfirst])
  · rintro rfl
    rfl

end Text

namespace Suggestion

/-! ## Renames -/

/-- The proposed name is the first of those that are closest, if it is close enough. The
threshold itself is not close enough. -/
theorem rename?_eq_some_iff {value c : Text} {candidates : List Text} :
    rename? value candidates = some c
      ↔ FirstClosest value candidates c ∧ leastRatio < ratio value c := by
  by_cases hnil : candidates = []
  · subst hnil
    constructor
    · intro hrename
      cases hrename
    · intro h
      exact absurd h.1.mem List.not_mem_nil
  · -- there is a first closest candidate, and only one
    obtain ⟨d, hd, hclosest⟩ := exists_closest value hnil
    rw [rename?, hd]
    by_cases hclose : leastRatio < ratio value d
    · simp only [hclose, if_true, Option.some_inj]
      constructor
      · rintro rfl
        exact ⟨hclosest, hclose⟩
      · rintro ⟨h, -⟩
        exact hclosest.unique h
    · simp only [hclose, if_false]
      constructor
      · intro hrename
        cases hrename
      · rintro ⟨h, hc⟩
        exact absurd (hclosest.unique h ▸ hc) hclose

/-- Nothing is proposed if nothing is close enough. -/
theorem rename?_eq_none_iff {value : Text} {candidates : List Text} :
    rename? value candidates = none ↔ ∀ c ∈ candidates, ratio value c ≤ leastRatio := by
  constructor
  · intro hnone c hc
    obtain ⟨d, -, hclosest⟩ := exists_closest value (List.ne_nil_of_mem hc)
    by_contra hfar
    have hclose : leastRatio < ratio value d :=
      lt_of_lt_of_le (not_le.mp hfar) (hclosest.ratio_le hc)
    rw [rename?_eq_some_iff.mpr ⟨hclosest, hclose⟩] at hnone
    cases hnone
  · intro hfar
    cases hrename : rename? value candidates with
    | none => rfl
    | some c =>
      obtain ⟨hclosest, hclose⟩ := rename?_eq_some_iff.mp hrename
      exact absurd (hfar c hclosest.mem) (not_le.mpr hclose)

/-- Something is proposed if some name is close enough, as the closest one then is. -/
theorem exists_rename?_iff {value : Text} {candidates : List Text} :
    (∃ c, rename? value candidates = some c) ↔ ∃ c ∈ candidates, leastRatio < ratio value c := by
  rw [← Option.isSome_iff_exists, ← not_iff_not, Option.not_isSome_iff_eq_none, rename?_eq_none_iff]
  simp only [not_exists, not_and, not_lt]

/-! ## The message -/

/-- The pieces of the message about a list of keywords. -/
def advice (keywords permissible required : List Text) : List Text :=
  (keywords.eraseDups.filter (· ∉ permissible)).map (invalidKeyword · permissible)
    ++ (required.filter (· ∉ keywords)).map ("Missing required keyword " ++ Text.quoted ·)

/-- The message joins its pieces; the unknown keywords come before the missing ones. -/
theorem fixKeywords_eq (keywords permissible required : List Text) :
    fixKeywords keywords permissible required
      = Text.joinWith "; " (advice keywords permissible required) := by
  rw [fixKeywords, advice, distinct_eq]
  simp

theorem ne_nil_of_mem_advice {keywords permissible required : List Text} :
    ∀ piece ∈ advice keywords permissible required, piece ≠ [] := by
  intro piece hpiece
  rcases List.mem_append.mp hpiece with hpiece | hpiece
  · obtain ⟨k, -, rfl⟩ := List.mem_map.mp hpiece
    exact List.cons_ne_nil _ _
  · obtain ⟨k, -, rfl⟩ := List.mem_map.mp hpiece
    exact List.cons_ne_nil _ _

/-- There is something to be said if a keyword is unknown or a required one is missing. No
piece is empty, so the message is empty only without pieces. -/
theorem fixKeywords_ne_nil_iff {keywords permissible required : List Text} :
    fixKeywords keywords permissible required ≠ []
      ↔ (∃ k ∈ keywords, k ∉ permissible) ∨ ∃ k ∈ required, k ∉ keywords := by
  rw [fixKeywords_eq, Ne, Text.joinWith_eq_nil_iff "; " ne_nil_of_mem_advice, advice,
    List.append_eq_nil_iff, List.map_eq_nil_iff, List.map_eq_nil_iff, List.filter_eq_nil_iff,
    List.filter_eq_nil_iff, not_and_or]
  simp

end Suggestion

namespace KeywordRules

open Suggestion (fixKeywords rename? invalidKeyword leastRatio)

/-! ## The rule -/

theorem mem_validKeywords_iff_required {t : Text} :
    t ∈ validKeywords ↔ t ∈ requiredKeywords ∨ t = SectionKeyword.controlledVocabulary.text := by
  rw [mem_validKeywords_iff, mem_requiredKeywords_iff, or_assoc]

/-- The two sets differ in one keyword, so valid keywords with all required ones among them are
one of the two. That is why the rule, which compares sets, agrees with a message that looks at
keywords one by one. -/
theorem valid_run_ne_nil_iff {severity : Severity} {input : KeywordsInput} :
    valid.run severity input ≠ []
      ↔ (∃ k ∈ input.keywords, k ∉ validKeywords) ∨ ∃ k ∈ requiredKeywords, k ∉ input.keywords := by
  have hsets : valid.run severity input = []
      ↔ (∀ k ∈ input.keywords, k ∈ validKeywords) ∧ ∀ k ∈ requiredKeywords, k ∈ input.keywords := by
    rw [valid_run_eq_nil_iff]
    constructor
    · rintro (hvalid | hrequired)
      · exact ⟨fun k => (hvalid k).mp, fun k hk => (hvalid k).mpr (requiredKeywords_subset k hk)⟩
      · exact ⟨fun k hk => requiredKeywords_subset k ((hrequired k).mp hk),
          fun k => (hrequired k).mpr⟩
    · rintro ⟨hknown, hthere⟩
      -- the optional keyword decides which of the two sets it is
      by_cases hoptional : SectionKeyword.controlledVocabulary.text ∈ input.keywords
      · refine .inl fun t => ⟨hknown t, fun ht => ?_⟩
        rcases mem_validKeywords_iff_required.mp ht with ht | rfl
        · exact hthere t ht
        · exact hoptional
      · refine .inr fun t => ⟨fun ht => ?_, hthere t⟩
        rcases mem_validKeywords_iff_required.mp (hknown t ht) with hrequired | rfl
        · exact hrequired
        · exact absurd ht hoptional
  rw [Ne, hsets, not_and_or]
  simp only [not_forall, exists_prop]

/-- The rule reports at most one violation, with the message about the keywords. -/
theorem valid_run_eq (severity : Severity) (input : KeywordsInput) :
    valid.run severity input = []
      ∨ valid.run severity input = [.atPosition severity (.rule .keywordsValid)
          (fixKeywords input.keywords validKeywords requiredKeywords) input.position] := by
  simp only [valid]
  split
  · exact .inl rfl
  · exact .inr rfl

/-! ## What the message says -/

/-- The unknown keywords of a list, each once, in the order in which they are seen first. -/
structure UnknownKeywords (keywords unknown : List Text) : Prop where
  once : unknown.Nodup
  complete : ∀ k, k ∈ unknown ↔ k ∈ keywords ∧ k ∉ validKeywords
  ordered : unknown.Pairwise fun k k' => keywords.idxOf k < keywords.idxOf k'

/-- What is said about an unknown keyword: the first of the closest valid ones if it is more
than half similar, and all of them if none is. -/
inductive Advises (keyword : Text) : Text → Prop where
  | rename {c : Text} (closest : FirstClosest keyword validKeywords c)
      (close : 1 / 2 < ratio keyword c) :
      Advises keyword ("Invalid keyword '" ++ keyword ++ "'. Did you mean '" ++ c ++ "'?")
  | listing (far : ∀ c ∈ validKeywords, ratio keyword c ≤ 1 / 2) :
      Advises keyword
        ("Invalid keyword '" ++ keyword ++ "'. Valid keywords are: "
          ++ List.intercalate (", " : Text) (validKeywords.map fun c => "'" ++ c ++ "'"))

/-- A message that goes through the unknown keywords and the missing required ones, and puts
each of them in quotes. -/
def Explains (keywords : List Text) (message : Text) : Prop :=
  ∃ unknown pieces, UnknownKeywords keywords unknown ∧ List.Forall₂ Advises unknown pieces
    ∧ message = List.intercalate ("; " : Text)
        (pieces ++ (requiredKeywords.filter (· ∉ keywords)).map fun (k : Text) =>
          "Missing required keyword '" ++ k ++ "'")

/-- Taking the unknown keywords out of a list without repetitions keeps them in their order. -/
theorem unknownKeywords_filter (keywords : List Text) :
    UnknownKeywords keywords (keywords.eraseDups.filter (· ∉ validKeywords)) where
  once := (nodup_eraseDups keywords).sublist List.filter_sublist
  complete k := by rw [List.mem_filter, List.mem_eraseDups, decide_eq_true_iff]
  ordered := (pairwise_idxOf_eraseDups keywords).sublist List.filter_sublist

/-- What is said of a keyword is one of the two pieces of advice, word for word. -/
theorem advises_invalidKeyword (keyword : Text) :
    Advises keyword (invalidKeyword keyword validKeywords) := by
  have hinvalid : ("Invalid keyword '" : Text) = "Invalid keyword " ++ "'" := by decide
  rw [invalidKeyword, Suggestion.renameOr]
  cases hrename : rename? keyword validKeywords with
  | none =>
    have hlist : ("'. Valid keywords are: " : Text) = "'" ++ ". " ++ "Valid keywords are: " := by
      decide
    have h := Advises.listing (Suggestion.rename?_eq_none_iff.mp hrename)
    rw [hinvalid, hlist] at h
    simpa only [Option.filter_none, Text.quotedList_eq, Text.quoted, List.append_assoc] using h
  | some c =>
    obtain ⟨hclosest, hclose⟩ := Suggestion.rename?_eq_some_iff.mp hrename
    -- a valid keyword is not empty, so it is not held back
    have hne : ∀ c ∈ validKeywords, c.isEmpty = false := by decide
    have hmean : ("'. Did you mean '" : Text) = "'" ++ ". " ++ "Did you mean " ++ "'" := by decide
    have hend : ("'?" : Text) = "'" ++ "?" := by decide
    have h := Advises.rename hclosest hclose
    rw [hinvalid, hmean, hend] at h
    rw [Option.filter_some, hne c hclosest.mem]
    simpa only [Bool.not_false, if_true, Text.quoted, List.append_assoc] using h

/-- The pieces about unknown keywords come in the order of the keywords; the pieces about
missing ones follow, in the order in which keywords are required. -/
theorem explains_fixKeywords (keywords : List Text) :
    Explains keywords (fixKeywords keywords validKeywords requiredKeywords) := by
  have hmissing : ("Missing required keyword '" : Text) = "Missing required keyword " ++ "'" := by
    decide
  refine ⟨_, (keywords.eraseDups.filter (· ∉ validKeywords)).map (invalidKeyword · validKeywords),
    unknownKeywords_filter keywords, ?_, ?_⟩
  · rw [List.forall₂_map_right_iff]
    exact List.forall₂_same.mpr fun k _ => advises_invalidKeyword k
  · rw [Suggestion.fixKeywords_eq, Text.joinWith, Suggestion.advice, hmissing]
    simp only [Text.quoted, List.append_assoc]

/-- The rule on keywords objects exactly if there is something to be said, which is if a
keyword is unknown or a required one is missing. It reports that once. The message is about
every unknown keyword and every missing one, and a rename is proposed exactly if some valid
keyword is more than half similar. -/
theorem valid_run_explains (severity : Severity) (input : KeywordsInput) :
    (valid.run severity input ≠ []
        ↔ fixKeywords input.keywords validKeywords requiredKeywords ≠ [])
      ∧ (valid.run severity input ≠ []
        ↔ (∃ k ∈ input.keywords, k ∉ validKeywords) ∨ ∃ k ∈ requiredKeywords, k ∉ input.keywords)
      ∧ (valid.run severity input = []
        ∨ valid.run severity input = [.atPosition severity (.rule .keywordsValid)
            (fixKeywords input.keywords validKeywords requiredKeywords) input.position])
      ∧ Explains input.keywords (fixKeywords input.keywords validKeywords requiredKeywords)
      ∧ ∀ keyword,
        ((∃ c, rename? keyword validKeywords = some c)
            ↔ ∃ c ∈ validKeywords, 1 / 2 < ratio keyword c)
          ∧ ∀ c, rename? keyword validKeywords = some c
            ↔ FirstClosest keyword validKeywords c ∧ 1 / 2 < ratio keyword c := by
  refine ⟨valid_run_ne_nil_iff.trans Suggestion.fixKeywords_ne_nil_iff.symm, valid_run_ne_nil_iff,
    valid_run_eq severity input, explains_fixKeywords input.keywords,
    fun keyword => ⟨?_, fun c => ?_⟩⟩
  · exact Suggestion.exists_rename?_iff
  · exact Suggestion.rename?_eq_some_iff

end KeywordRules

end MetadataBlock
