import MetadataBlock.Lint.Source
import MetadataBlock.Proofs.AliasExpansion
import MetadataBlock.Proofs.ErrorRules

/-!
# What linting a source gives

A source with a document is linted by reading it and checking the document. A source
without one has an error that says why, unless reading it goes on forever. It does not if
no alias stands inside the node that it refers to.

- `lintSource_eq`, `readAt_of_lintSource`, `exists_kind_of_document`: sources with a
  document;
- `aliasesPointBack`, `endless_lintSource`, `endless_of_document`: sources that are read to
  an end;
- `exists_error_of_no_document`: sources without a document.
-/

namespace MetadataBlock

/-- A source with a document is linted by validating the document. -/
theorem lintSource_eq {path source : Text} {document : Document}
    (h : (readAt path source).document = some document) (options : LintOptions) :
    lintSource path source options =
      { path
        violations := (readAt path source).violations ++ lintDocument document options
        longestRow := document.longestRow
        document := some document } := by
  rw [lintSource]
  simp only [h]
  rfl

/-- The document of a linted source is the one that was read from it. -/
theorem readAt_of_lintSource {path source : Text} {options : LintOptions} {document : Document}
    (h : (lintSource path source options).document = some document) :
    (readAt path source).document = some document := by
  rw [lintSource] at h
  cases hread : (readAt path source).document with
  | none =>
    simp only [hread] at h
    cases h
  | some d =>
    simp only [hread] at h
    exact h

/-- A source with a document was read as one of the two kinds. -/
theorem exists_kind_of_document {path source : Text} {document : Document}
    (h : (readAt path source).document = some document) :
    ∃ kind, (SourceKind.guess path).1 = some kind
      ∧ (readSource kind source).document = some document := by
  rw [readAt] at h
  split at h
  · cases h
  · next kind violations hguess =>
    exact ⟨kind, by rw [hguess], h⟩

/-! ## Sources that are read to an end -/

/-- No alias of a YAML source stands inside the node that it refers to. In sources of other
kinds there are no aliases. -/
def aliasesPointBack (path source : Text) : Bool :=
  match (SourceKind.guess path).1, Yaml.parseTree source with
  | some .yaml, .ok (some tree) => Yaml.pointsBack [] tree.nodes
  | _, _ => true

/-- A tree whose aliases point back becomes a node, so a source with such a tree is read to
an end, whatever that node is. -/
theorem Yaml.endless_read {source : Text}
    (h : ∀ tree, parseTree source = .ok (some tree) → pointsBack [] tree.nodes = true) :
    (Yaml.read source).endless = false := by
  rw [Yaml.read]
  split
  · rfl
  · rfl
  · next tree htree =>
    obtain ⟨root, hroot, -⟩ :=
      exists_node_of_pointsBack (h tree htree) (positionOf (lineStarts source))
    rw [hroot]
    simp only
    split
    · rfl
    · rfl

/-- Sources of other kinds are always read to an end. -/
theorem endless_readAt {path source : Text} (h : aliasesPointBack path source = true) :
    (readAt path source).endless = false := by
  rw [readAt]
  split
  · rfl
  · next kind violations hguess =>
    cases kind with
    | tabular => rfl
    | yaml =>
      refine Yaml.endless_read fun tree htree => ?_
      rwa [aliasesPointBack, hguess, htree] at h

/-- Linting goes on forever only where reading does, since every rule looks at a document that
is there already. -/
theorem endless_lintSource {path source : Text} (h : aliasesPointBack path source = true)
    (options : LintOptions) : (lintSource path source options).endless = false := by
  rw [lintSource]
  split
  · exact endless_readAt h
  · rfl

/-- A source that is not read to an end has an alias inside the node that it refers to. -/
theorem not_aliasesPointBack_of_endless {path source : Text} {options : LintOptions}
    (h : (lintSource path source options).endless = true) :
    aliasesPointBack path source = false := by
  refine eq_false_of_ne_true fun hback => ?_
  rw [endless_lintSource hback options] at h
  cases h

/-- A source with a document was read to an end. -/
theorem endless_of_document {path source : Text} {options : LintOptions} {document : Document}
    (h : (lintSource path source options).document = some document) :
    (lintSource path source options).endless = false := by
  rw [lintSource_eq (readAt_of_lintSource h)]

/-! ## Sources without a document -/

/-- A path of an unknown kind is an error. -/
theorem exists_error_of_unknown_kind {path : Text} (h : (SourceKind.guess path).1 = none) :
    ∃ v ∈ (SourceKind.guess path).2, v.isError = true := by
  rw [SourceKind.guess] at h ⊢
  split at h
  · cases h
  · split at h
    · cases h
    · split at h
      · cases h
      · next htsv hcsv hyaml =>
        simp only [if_neg htsv, if_neg hcsv, if_neg hyaml]
        exact ⟨_, List.mem_singleton_self _, rfl⟩

/-- A source that is read to an end but cannot be parsed, or has no mapping at its root, is
an error. -/
theorem Yaml.exists_error_of_no_document {source : Text} (h : (Yaml.read source).document = none)
    (hends : (Yaml.read source).endless = false) :
    ∃ v ∈ (Yaml.read source).violations, v.isError = true := by
  rw [Yaml.read] at h hends ⊢
  split at h
  · exact ⟨_, List.mem_singleton_self _, rfl⟩
  · cases h
  · next tree htree =>
    split at h
    · next hroot =>
      simp only [htree, hroot] at hends
      cases hends
    · split at h
      · cases h
      · exact ⟨_, List.mem_singleton_self _, rfl⟩

/-- Without a document there is an error, if the source is read to an end. This is why a run
can tell from the errors alone whether there is something to write. -/
theorem exists_error_of_no_document {path source : Text} {options : LintOptions}
    (h : (lintSource path source options).document = none)
    (hends : (lintSource path source options).endless = false) :
    ∃ v ∈ (lintSource path source options).violations, v.isError = true := by
  cases hread : (readAt path source).document with
  | some document =>
    rw [lintSource_eq hread] at h
    cases h
  | none =>
    have hlint : lintSource path source options =
        { path, violations := (readAt path source).violations, document := none
          endless := (readAt path source).endless } := by
      rw [lintSource]
      simp only [hread]
    rw [hlint] at hends ⊢
    simp only at hends ⊢
    rw [readAt] at hread hends ⊢
    split at hread
    · next violations hguess =>
      have herror : ∃ v ∈ (SourceKind.guess path).2, v.isError = true :=
        exists_error_of_unknown_kind (by rw [hguess])
      rwa [hguess] at herror
    · next kind violations hguess =>
      rw [hguess] at hends
      cases kind with
      | tabular => cases hread
      | yaml =>
        obtain ⟨v, hv, herror⟩ := Yaml.exists_error_of_no_document hread hends
        exact ⟨v, List.mem_append_right _ hv, herror⟩

end MetadataBlock
