import MetadataBlock.Proofs.ErrorRules
import MetadataBlock.Table.Writer

/-!
# Sections in another order

The order of the sections in a source does not matter as long as those with unknown
keywords keep theirs: validation finds the same violations in the same order, and the
table has the same text.

- `Reordering`: two documents with the same sections in different order;
- `Reordering.sections_eq`: in canonical order the sections are the same;
- `Reordering.lintKeywords_eq`: the rules on keywords look at the set of known keywords
  and at the order of unknown ones;
- `Reordering.longestRow_eq`: the widest record is a maximum over all sections;
- `validate_render_of_reordering`: validation and rendering.
-/

namespace MetadataBlock

open SectionKeyword (ofText?)

/-- Does the entry open a section with an unknown keyword? -/
def Entry.isUnknown (e : Entry) : Bool :=
  (ofText? e.key).isNone

/-- The second document has the sections of the first one in another order. Sections with
unknown keywords keep their order. -/
structure Reordering (document reordered : Document) : Prop where
  perm : reordered.entries.Perm document.entries
  unknown : reordered.entries.filter Entry.isUnknown = document.entries.filter Entry.isUnknown
  position : reordered.position = document.position

/-! ## Places of keywords -/

theorem ofText?_eq_some_iff {t : Text} {k : SectionKeyword} : ofText? t = some k ↔ t = k.text := by
  constructor
  · intro h
    have hspelled := List.find?_some h
    exact (beq_iff_eq.mp hspelled).symm
  · rintro rfl
    exact SectionKeyword.ofText?_text k

theorem keywordOrder_eq_order_iff {t : Text} {k : SectionKeyword} :
    keywordOrder t = k.order ↔ t = k.text := by
  rw [← ofText?_eq_some_iff, keywordOrder]
  cases ofText? t with
  | none => cases k <;> decide
  | some k' => cases k <;> cases k' <;> decide

/-- The last place is that of all unknown keywords. -/
theorem keywordOrder_eq_three_iff {t : Text} : keywordOrder t = 3 ↔ ofText? t = none := by
  rw [keywordOrder]
  cases ofText? t with
  | none => decide
  | some k => cases k <;> decide

/-- Every place but the last one belongs to a known keyword. -/
theorem exists_order_eq {place : Nat} (h : place < 4) :
    place = 3 ∨ ∃ k : SectionKeyword, place = k.order := by
  have hplaces : place = 3 ∨ place = 0 ∨ place = 1 ∨ place = 2 := by omega
  rcases hplaces with rfl | rfl | rfl | rfl
  · exact .inl rfl
  · exact .inr ⟨.metadataBlock, rfl⟩
  · exact .inr ⟨.datasetField, rfl⟩
  · exact .inr ⟨.controlledVocabulary, rfl⟩

/-- At most one element has a value that no two elements share, so reordering does not
move it. -/
theorem filter_eq_of_perm_of_nodup {α β : Type} [DecidableEq β] {f : α → β} {l l' : List α}
    (hperm : l'.Perm l) (hnodup : (l.map f).Nodup) (b : β) :
    l'.filter (f · = b) = l.filter (f · = b) := by
  have hfilter : (l'.filter (f · = b)).Perm (l.filter (f · = b)) := hperm.filter _
  have hsub : ((l.filter (f · = b)).map f).Nodup :=
    hnodup.sublist (List.filter_sublist.map f)
  have hvalue : ∀ a ∈ l.filter (f · = b), f a = b := fun a ha =>
    of_decide_eq_true (List.mem_filter.mp ha).2
  cases hl : l.filter (f · = b) with
  | nil =>
    rw [hl] at hfilter
    exact hfilter.eq_nil
  | cons a rest =>
    cases rest with
    | nil =>
      rw [hl] at hfilter
      exact List.perm_singleton.mp hfilter
    | cons c rest =>
      -- two elements with the value contradict that it is not shared
      rw [hl] at hsub hvalue
      have hac : f a = f c := by
        rw [hvalue a List.mem_cons_self, hvalue c (List.mem_cons_of_mem _ List.mem_cons_self)]
      rw [List.map_cons, List.map_cons, hac] at hsub
      exact absurd List.mem_cons_self (List.nodup_cons.mp hsub).1

/-- Rules that report the same on two inputs do so under any overrides, as an override only
chooses the severity. -/
theorem runRules_congr {ι : Type} {rules : List (Rule ι)} {a b : ι}
    (h : ∀ rule ∈ rules, ∀ severity, rule.run severity a = rule.run severity b)
    (overrides : Overrides) : runRules rules overrides a = runRules rules overrides b := by
  refine List.flatMap_congr fun rule hrule => ?_
  rw [Rule.apply, Rule.apply]
  cases rule.resolve overrides with
  | skipped => rfl
  | active severity => exact h rule hrule severity

namespace Reordering

variable {document reordered : Document}

theorem perm_keys (h : Reordering document reordered) : reordered.keys.Perm document.keys :=
  h.perm.map _

/-! ## Sections -/

/-- At every place of the canonical order both documents have the same sections. A known
keyword has one section at most, and unknown ones keep their order. -/
theorem filter_sourceSections_eq (h : Reordering document reordered)
    (hdistinct : document.keys.Nodup) {place : Nat} (hplace : place < 4) :
    reordered.sourceSections.filter (fun s => keywordOrder s.keyword = place)
      = document.sourceSections.filter fun s => keywordOrder s.keyword = place := by
  rw [Mapping.sourceSections, Mapping.sourceSections, List.filter_map, List.filter_map]
  refine congrArg _ ?_
  rcases exists_order_eq hplace with rfl | ⟨k, rfl⟩
  · -- the last place holds the sections with unknown keywords
    have hunknown : ∀ e : Entry, decide (keywordOrder e.key = 3) = e.isUnknown := by
      intro e
      rw [Bool.eq_iff_iff, decide_eq_true_iff, keywordOrder_eq_three_iff, Entry.isUnknown,
        Option.isNone_iff_eq_none]
    have heq := h.unknown
    rw [← List.filter_congr fun e _ => hunknown e, ← List.filter_congr fun e _ => hunknown e] at heq
    exact heq
  · -- any other place holds the section with its keyword, if there is one
    have hknown : ∀ e : Entry, decide (keywordOrder e.key = k.order) = decide (e.key = k.text) := by
      intro e
      rw [decide_eq_decide, keywordOrder_eq_order_iff]
    have heq := filter_eq_of_perm_of_nodup h.perm hdistinct k.text
    rw [← List.filter_congr fun e _ => hknown e, ← List.filter_congr fun e _ => hknown e] at heq
    exact heq

/-- In canonical order the sections are the same, place by place. -/
theorem sections_eq (h : Reordering document reordered) (hdistinct : document.keys.Nodup) :
    reordered.sections = document.sections := by
  rw [MetadataBlock.sections_eq, MetadataBlock.sections_eq]
  refine List.flatMap_congr fun place hplace => ?_
  exact h.filter_sourceSections_eq hdistinct (List.mem_range.mp hplace)

/-! ## Keywords -/

/-- The test of keywords as a set does not depend on their order. -/
theorem formSet_eq (h : Reordering document reordered) {expected : List Text}
    (hexpected : expected.Nodup) :
    KeywordRules.formSet reordered.keys expected = KeywordRules.formSet document.keys expected := by
  rw [Bool.eq_iff_iff, KeywordRules.formSet_iff hexpected, KeywordRules.formSet_iff hexpected]
  refine forall_congr' fun t => ?_
  rw [h.perm_keys.mem_iff]

/-- The invalid keywords are listed in source order, which is the same for those with unknown
keywords. -/
theorem filter_keys_eq (h : Reordering document reordered) :
    reordered.keys.filter (fun t => !KeywordRules.validKeywords.contains t)
      = document.keys.filter fun t => !KeywordRules.validKeywords.contains t := by
  have hinvalid : ∀ e : Entry, (!KeywordRules.validKeywords.contains e.key) = e.isUnknown := by
    intro e
    rw [Bool.eq_iff_iff, Bool.not_eq_true', Entry.isUnknown, Option.isNone_iff_eq_none,
      ← Bool.not_eq_true, List.contains_iff_mem, KeywordRules.mem_validKeywords]
    cases hk : ofText? e.key with
    | none =>
      refine iff_of_true ?_ rfl
      rintro ⟨k, htext⟩
      rw [htext, SectionKeyword.ofText?_text] at hk
      cases hk
    | some k => exact iff_of_false (fun hnot => hnot ⟨k, ofText?_eq_some_iff.mp hk⟩) nofun
  have heq := congrArg (List.map Entry.key) h.unknown
  rw [← List.filter_congr fun e _ => hinvalid e, ← List.filter_congr fun e _ => hinvalid e] at heq
  rw [Mapping.keys, Mapping.keys, List.filter_map, List.filter_map]
  exact heq

/-- The message about the keywords is the same: neither the unknown ones nor the missing ones
are listed in an order that has changed. -/
theorem fixKeywords_eq (h : Reordering document reordered) (hdistinct : document.keys.Nodup)
    (required : List Text) :
    Suggestion.fixKeywords reordered.keys KeywordRules.validKeywords required
      = Suggestion.fixKeywords document.keys KeywordRules.validKeywords required := by
  have hreordered : reordered.keys.Nodup := h.perm_keys.nodup_iff.mpr hdistinct
  have hmissing : required.filter (fun t => !reordered.keys.contains t)
      = required.filter fun t => !document.keys.contains t := by
    refine List.filter_congr fun t _ => ?_
    rw [Bool.eq_iff_iff, Bool.not_eq_true', Bool.not_eq_true', ← Bool.not_eq_true,
      ← Bool.not_eq_true, List.contains_iff_mem, List.contains_iff_mem, h.perm_keys.mem_iff]
  rw [Suggestion.fixKeywords, Suggestion.fixKeywords, distinct_eq, distinct_eq,
    eraseDups_of_nodup hreordered, eraseDups_of_nodup hdistinct, h.filter_keys_eq, hmissing]

/-- The rules on keywords report the same. One looks at the keywords as a set, and the other
finds nothing in distinct keywords. -/
theorem lintKeywords_eq (h : Reordering document reordered) (hdistinct : document.keys.Nodup)
    (options : LintOptions) : lintKeywords reordered options = lintKeywords document options := by
  have hvalid : ∀ severity,
      KeywordRules.valid.run severity ⟨reordered.keys, reordered.position⟩
        = KeywordRules.valid.run severity ⟨document.keys, document.position⟩ := by
    intro severity
    simp only [KeywordRules.valid]
    rw [h.formSet_eq (by decide), h.formSet_eq (by decide), h.fixKeywords_eq hdistinct, h.position]
  have hunique : ∀ severity,
      KeywordRules.unique.run severity ⟨reordered.keys, reordered.position⟩
        = KeywordRules.unique.run severity ⟨document.keys, document.position⟩ := by
    intro severity
    rw [KeywordRules.unique_run_eq_nil_iff.mpr (h.perm_keys.nodup_iff.mpr hdistinct),
      KeywordRules.unique_run_eq_nil_iff.mpr hdistinct]
  refine runRules_congr (fun rule hrule => ?_) options.overrides
  rw [Catalog.topLevelRules, List.mem_cons, List.mem_singleton] at hrule
  rcases hrule with rfl | rfl
  · exact hvalid
  · exact hunique

/-! ## The widest record -/

/-- The widths of all records of a document, section by section. -/
def recordWidths (document : Document) : List Nat :=
  document.entries.flatMap fun e => e.value.records.map (recordWidth e.key)

theorem longestRow_eq_foldl (document : Document) :
    document.longestRow = (recordWidths document).foldl max 0 := by
  rw [Mapping.longestRow, recordWidths, List.foldl_flatMap]
  congr 1
  funext longest e
  rw [List.foldl_map]

/-- The widest record is found in any order, as a maximum does not depend on it. -/
theorem longestRow_eq (h : Reordering document reordered) :
    reordered.longestRow = document.longestRow := by
  have hwidths : (recordWidths reordered).Perm (recordWidths document) := h.perm.flatMap_right _
  rw [longestRow_eq_foldl, longestRow_eq_foldl]
  exact hwidths.foldl_eq' (fun x _ y _ z => by omega) 0

end Reordering

/-- A document with distinct keywords may give its sections in another order, as long as
those with unknown keywords keep theirs: it is validated with the same violations in the
same order and the same width, and it is written as the same text, or not written for the
same reason. -/
theorem validate_render_of_reordering {document reordered : Document}
    (hdistinct : document.keys.Nodup) (h : Reordering document reordered) :
    (∀ options : LintOptions, validate reordered options = validate document options)
      ∧ ∀ wanted : Nat, Table.render reordered wanted = Table.render document wanted := by
  have hsections := h.sections_eq hdistinct
  constructor
  · intro options
    rw [validate, validate, lintDocument, lintDocument, hsections,
      h.lintKeywords_eq hdistinct, h.longestRow_eq]
  · intro wanted
    rw [Table.render, Table.render, Table.ofDocument, Table.ofDocument, hsections]

/-- Sections with unknown keywords around a known one. -/
def unknownSections : List Entry :=
  [⟨"metadatablock", .list [] none, none⟩,
   ⟨"datasetField",
      .list [.mapping [⟨"name", .scalar (.text "a") none, none⟩,
        ⟨"title", .list [] none, none⟩] (some ⟨3, none⟩)] none, none⟩,
   ⟨"fields", .scalar .null none, none⟩]

/-- The section that the canonical order puts first. -/
def blockSection : List Entry :=
  [⟨"metadataBlock",
      .list [.mapping [⟨"displayName", .scalar (.text "A") none, none⟩] (some ⟨7, none⟩)] none, none⟩]

/-- The four sections with the first one given last, or first. -/
theorem validate_render_blockSection :
    ((⟨unknownSections ++ blockSection, none⟩ : Document).keys.Nodup
        ∧ Reordering ⟨unknownSections ++ blockSection, none⟩ ⟨blockSection ++ unknownSections, none⟩)
      ∧ (∀ options : LintOptions, validate ⟨blockSection ++ unknownSections, none⟩ options
          = validate ⟨unknownSections ++ blockSection, none⟩ options)
      ∧ ∀ wanted : Nat, Table.render ⟨blockSection ++ unknownSections, none⟩ wanted
          = Table.render ⟨unknownSections ++ blockSection, none⟩ wanted := by
  have hdistinct : (⟨unknownSections ++ blockSection, none⟩ : Document).keys.Nodup := by decide
  have hknown : blockSection.filter Entry.isUnknown = [] := rfl
  have hreordering : Reordering ⟨unknownSections ++ blockSection, none⟩
      ⟨blockSection ++ unknownSections, none⟩ := by
    refine ⟨List.perm_append_comm, ?_, rfl⟩
    show (blockSection ++ unknownSections).filter Entry.isUnknown
      = (unknownSections ++ blockSection).filter Entry.isUnknown
    rw [List.filter_append, List.filter_append, hknown, List.append_nil, List.nil_append]
  exact ⟨⟨hdistinct, hreordering⟩, validate_render_of_reordering hdistinct hreordering⟩

end MetadataBlock
