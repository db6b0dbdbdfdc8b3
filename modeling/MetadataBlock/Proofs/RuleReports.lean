import Mathlib.Data.List.Basic
import MetadataBlock.Lint.Catalog

/-!
# Rules report under their own name

The severity that a rule is run with is attached to its violations and decides
nothing else, and every violation bears the name of the rule that reports it. So
what a rule finds can be told from a run at any severity.

- `ReportedBy`: reports of this kind, with one lemma for each way to make a list of
  violations (`reportedBy_singleton`, `reportedBy_map`, `reportedBy_filterMap`);
- `Rule.Lawful`: rules that report in this way on every input;
- `lawful_topLevelRules`, `lawful_blockRules`, `lawful_recordRules`: all rules of
  the catalog do.
-/

namespace MetadataBlock

/-- The violation at another severity. -/
def Violation.withSeverity (v : Violation) (severity : Severity) : Violation :=
  { v with severity }

/-- The report of a rule: its violations bear the name, and at another severity they
are the same but for the severity. -/
structure ReportedBy (name : RuleName) (report : Severity → List Violation) : Prop where
  origin : ∀ severity, ∀ v ∈ report severity, v.origin = .rule name
  uniform : ∀ s severity, report severity = (report s).map (·.withSeverity severity)

/-- A rule that reports under its own name and looks at its input only. -/
def Rule.Lawful {ι : Type} (rule : Rule ι) : Prop :=
  ∀ input, ReportedBy rule.name (rule.run · input)

section

variable {name : RuleName} {report : Severity → List Violation}

/-- What is reported has the severity that it is reported at. -/
theorem ReportedBy.severity_eq (h : ReportedBy name report) {severity : Severity} {v : Violation}
    (hv : v ∈ report severity) : v.severity = severity := by
  rw [h.uniform severity severity] at hv
  obtain ⟨w, -, rfl⟩ := List.mem_map.mp hv
  rfl

/-! ## Reports -/

theorem reportedBy_nil : ReportedBy name fun _ => [] where
  origin _ := List.forall_mem_nil _
  uniform _ _ := rfl

theorem reportedBy_singleton (message : Text) (position : Option Position) :
    ReportedBy name fun severity => [.atPosition severity (.rule name) message position] where
  origin _ := List.forall_mem_singleton.mpr rfl
  uniform _ _ := rfl

/-- One violation under a condition. -/
theorem reportedBy_ite {c : Prop} [Decidable c] (message : Text) (position : Option Position) :
    ReportedBy name fun severity =>
      (if c then some (.atPosition severity (.rule name) message position) else none).toList := by
  by_cases hc : c
  · simp only [if_pos hc]
    exact reportedBy_singleton message position
  · simp only [if_neg hc]
    exact reportedBy_nil

/-- One violation for each element. Most rules report in this way, with the elements found
beforehand. -/
theorem reportedBy_map {α : Type} (l : List α) (message : α → Text)
    (position : α → Option Position) :
    ReportedBy name fun severity =>
      l.map fun a => .atPosition severity (.rule name) (message a) (position a) := by
  constructor
  · intro severity v hv
    obtain ⟨a, -, rfl⟩ := List.mem_map.mp hv
    rfl
  · intro s severity
    rw [List.map_map]
    rfl

/-- At most one violation for each element. Whether there is one must not depend on the
severity, which is what the condition says. -/
theorem reportedBy_filterMap {α : Type} (l : List α) {found : Severity → α → Option Violation}
    (h : ∀ a, ReportedBy name fun severity => (found severity a).toList) :
    ReportedBy name fun severity => l.filterMap (found severity) := by
  constructor
  · intro severity v hv
    obtain ⟨a, -, hfound⟩ := List.mem_filterMap.mp hv
    refine (h a).origin severity v ?_
    rw [hfound]
    exact List.mem_singleton_self v
  · intro s severity
    rw [List.map_filterMap]
    refine List.filterMap_congr fun a _ => ?_
    have hfound := congrArg List.head? ((h a).uniform s severity)
    rwa [← Option.toList_map, Option.head?_toList, Option.head?_toList] at hfound

end

/-! ## Keyword rules -/

namespace KeywordRules

theorem lawful_valid : valid.Lawful := by
  intro input
  simp only [valid]
  split
  · exact reportedBy_nil
  · exact reportedBy_singleton _ _

theorem lawful_unique : unique.Lawful := by
  intro input
  simp only [unique]
  split
  · exact reportedBy_nil
  · exact reportedBy_singleton _ _

end KeywordRules

/-! ## Block rules -/

namespace BlockRules

theorem lawful_isList : isList.Lawful := by
  rintro ⟨keyword, block, settings⟩
  cases block with
  | scalar value position => exact reportedBy_singleton _ _
  | mapping entries position => exact reportedBy_singleton _ _
  | list items position =>
    refine reportedBy_filterMap (items.zipIdx 1) fun ⟨item, place⟩ => ?_
    cases item with
    | scalar value position => exact reportedBy_singleton _ _
    | list items position => exact reportedBy_singleton _ _
    | mapping entries position => exact reportedBy_nil

theorem lawful_uniqueNames : uniqueNames.Lawful := by
  intro input
  simp only [uniqueNames]
  split
  · exact reportedBy_filterMap _ fun ⟨_, _⟩ => reportedBy_ite _ _
  · exact reportedBy_filterMap _ fun ⟨_, _⟩ => reportedBy_ite _ _
  · exact reportedBy_nil

theorem lawful_uniqueTitles : uniqueTitles.Lawful := by
  intro input
  simp only [uniqueTitles]
  split
  · exact reportedBy_filterMap _ fun ⟨⟨_, _⟩, _⟩ => reportedBy_ite _ _
  · exact reportedBy_nil

/-- The rule on typos has one report for each suspicion, which knows its message and its
place. -/
theorem lawful_namePrefixTypos : namePrefixTypos.Lawful := by
  intro input
  simp only [namePrefixTypos]
  split
  · generalize (Typo.suspicions _ _ _ : List (Typo.Suspicion UInt16)) = suspicions
    exact reportedBy_map _ _ _
  · exact reportedBy_nil

end BlockRules

/-! ## Record rules -/

namespace RecordRules

theorem lawful_requiredKeysPresent : requiredKeysPresent.Lawful := by
  intro input
  simp only [requiredKeysPresent]
  split
  · exact reportedBy_singleton _ _
  · split
    · exact reportedBy_nil
    · exact reportedBy_singleton _ _

theorem lawful_keysValid : keysValid.Lawful := by
  intro input
  simp only [keysValid]
  split
  · exact reportedBy_singleton _ _
  · exact reportedBy_map _ _ _

theorem lawful_noSubstructures : noSubstructures.Lawful :=
  fun _ => reportedBy_map _ _ _

theorem reportedBy_trailingSpace? (record : Mapping) (key : Text) :
    ReportedBy .noTrailingSpaces fun severity => (trailingSpace? severity record key).toList := by
  simp only [trailingSpace?]
  split
  · exact reportedBy_ite _ _
  · exact reportedBy_nil

theorem lawful_noTrailingSpaces : noTrailingSpaces.Lawful := by
  intro input
  simp only [noTrailingSpaces]
  split
  · exact reportedBy_nil
  · exact reportedBy_filterMap _ (reportedBy_trailingSpace? input.record)

/-- The two rules on nested fields pass on the name that they are made with. -/
theorem lawful_nestedCompound (name : RuleName) (code : Text) (vocabulary : Bool) :
    (nestedCompound name code vocabulary).Lawful := by
  intro input
  simp only [nestedCompound]
  split
  · exact reportedBy_singleton _ _
  · exact reportedBy_nil

end RecordRules

/-! ## The catalog -/

namespace Catalog

theorem lawful_topLevelRules : ∀ rule ∈ topLevelRules, rule.Lawful := by
  simp only [topLevelRules, List.forall_mem_cons]
  exact ⟨KeywordRules.lawful_valid, KeywordRules.lawful_unique, List.forall_mem_nil _⟩

theorem lawful_blockRules : ∀ rule ∈ blockRules, rule.Lawful := by
  simp only [blockRules, List.forall_mem_cons]
  exact ⟨BlockRules.lawful_isList, BlockRules.lawful_uniqueNames, BlockRules.lawful_uniqueTitles,
    BlockRules.lawful_namePrefixTypos, List.forall_mem_nil _⟩

/-- All rules on records are lawful. This is what carries over from one rule to a run. -/
theorem lawful_recordRules : ∀ rule ∈ recordRules, rule.Lawful := by
  simp only [recordRules, List.forall_mem_cons]
  exact ⟨RecordRules.lawful_requiredKeysPresent, RecordRules.lawful_keysValid,
    RecordRules.lawful_noSubstructures, RecordRules.lawful_noTrailingSpaces,
    RecordRules.lawful_nestedCompound _ _ _, RecordRules.lawful_nestedCompound _ _ _,
    List.forall_mem_nil _⟩

end Catalog

end MetadataBlock
