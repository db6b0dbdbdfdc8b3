import MetadataBlock.Proofs.ErrorRules
import MetadataBlock.Report.Summary

/-!
# What a summary says

The level of a run is found by going through the levels of its files, and its counts by
filtering the violations of each file. Both agree with the violations of all files taken
together.

- `mostSevere_append`, `mostSevere_eq_error_iff`, `mostSevere_eq_none_iff`: the level of
  a list of violations;
- `Summary.Describes`, `describes_of`: the counts and the level of a summary in terms of
  the files and of each other;
- `exitCodeOf`, `exitCode_summary`: the exit code in terms of all violations.
-/

namespace MetadataBlock

/-! ## Levels -/

namespace Level

theorem none_worse (a : Level) : none.worse a = a := by
  cases a with
  | none => rfl
  | warning => rfl
  | error => rfl

/-- Levels can be taken together in any order of the brackets. -/
theorem worse_assoc (a b c : Level) : (a.worse b).worse c = a.worse (b.worse c) := by
  cases a <;> cases b <;> cases c <;> rfl

theorem worse_eq_error_iff {a b : Level} : a.worse b = .error ↔ a = .error ∨ b = .error := by
  cases a <;> cases b <;> decide

theorem worse_eq_none_iff {a b : Level} : a.worse b = .none ↔ a = .none ∧ b = .none := by
  cases a <;> cases b <;> decide

theorem eq_warning_iff {l : Level} : l = .warning ↔ l ≠ .error ∧ l ≠ .none := by
  cases l <;> decide

/-- The worst of several levels is the worse of the first one and the worst of the rest. So a
level that has been found can be taken out of the loop. -/
theorem foldl_worse {α : Type} (level : α → Level) (l : List α) (a : Level) :
    l.foldl (fun worst x => worst.worse (level x)) a
      = a.worse (l.foldl (fun worst x => worst.worse (level x)) .none) := by
  induction l generalizing a with
  | nil => cases a <;> rfl
  | cons x l ih =>
    rw [List.foldl_cons, List.foldl_cons, ih, ih (Level.none.worse _), none_worse, worse_assoc]

end Level

theorem mostSevere_cons (v : Violation) (vs : List Violation) :
    mostSevere (v :: vs) = v.severity.level.worse (mostSevere vs) := by
  rw [mostSevere, List.foldl_cons, Level.foldl_worse, Level.none_worse]
  rfl

/-- The level of two lists is the worse one of their levels. -/
theorem mostSevere_append (vs ws : List Violation) :
    mostSevere (vs ++ ws) = (mostSevere vs).worse (mostSevere ws) := by
  induction vs with
  | nil => exact (Level.none_worse _).symm
  | cons v vs ih => rw [List.cons_append, mostSevere_cons, mostSevere_cons, ih, Level.worse_assoc]

theorem Violation.isError_iff (v : Violation) : v.isError = true ↔ v.severity.level = .error := by
  rw [Violation.isError]
  cases v.severity <;> decide

/-- A violation that is no error is a warning. -/
theorem Violation.isWarning_eq_not (v : Violation) : v.isWarning = !v.isError := by
  rw [Violation.isWarning, Violation.isError]
  cases v.severity <;> decide

/-- The level is error exactly with an error among the violations, wherever it stands. -/
theorem mostSevere_eq_error_iff {vs : List Violation} :
    mostSevere vs = .error ↔ ∃ v ∈ vs, v.isError = true := by
  induction vs with
  | nil => simp [mostSevere]
  | cons v vs ih =>
    rw [mostSevere_cons, Level.worse_eq_error_iff, ih, List.exists_mem_cons_iff, v.isError_iff]

theorem errorFree_iff_mostSevere {vs : List Violation} : ErrorFree vs ↔ mostSevere vs ≠ .error := by
  rw [ne_eq, mostSevere_eq_error_iff, ErrorFree]
  push Not
  exact forall₂_congr fun v _ => Bool.eq_false_iff

/-- Without violations there is no level, and only then. -/
theorem mostSevere_eq_none_iff {vs : List Violation} : mostSevere vs = .none ↔ vs = [] := by
  cases vs with
  | nil => exact ⟨fun _ => rfl, fun _ => rfl⟩
  | cons v vs =>
    rw [mostSevere_cons, Level.worse_eq_none_iff]
    constructor
    · rintro ⟨hlevel, -⟩
      cases hseverity : v.severity with
      | warning => rw [hseverity] at hlevel; cases hlevel
      | error => rw [hseverity] at hlevel; cases hlevel
    · intro h
      cases h

/-! ## Summaries -/

/-- The violations of all files, one file after the other. -/
def allViolations (results : List FileResult) : List Violation :=
  results.flatMap (·.violations)

theorem allViolations_cons (r : FileResult) (results : List FileResult) :
    allViolations (r :: results) = r.violations ++ allViolations results := rfl

/-- The level of a run is that of all its violations, though it is found file by file. -/
theorem mostSevere_of (results : List FileResult) :
    (Summary.of results).mostSevere = mostSevere (allViolations results) := by
  show results.foldl (fun worst r => Level.worse worst r.level) Level.none = _
  induction results with
  | nil => rfl
  | cons r results ih =>
    rw [List.foldl_cons, Level.foldl_worse, ih, Level.none_worse, allViolations_cons,
      mostSevere_append]
    rfl

/-- Counts over files sum up to the count over all violations. -/
theorem total_countP (p : Violation → Bool) (results : List FileResult) :
    total (results.map fun r => r.violations.countP p) = (allViolations results).countP p := by
  induction results with
  | nil => rfl
  | cons r results ih =>
    rw [List.map_cons, total_cons, ih, allViolations_cons, List.countP_append]

theorem FileResult.errorCount_eq (r : FileResult) :
    r.errorCount = r.violations.countP (·.isError) := List.countP_eq_length_filter.symm

theorem FileResult.warningCount_eq (r : FileResult) :
    r.warningCount = r.violations.countP (·.isWarning) := List.countP_eq_length_filter.symm

theorem countP_pos_eq_any {α : Type} (p : α → Bool) (l : List α) :
    decide (0 < l.countP p) = l.any p := by
  rw [Bool.eq_iff_iff, decide_eq_true_iff, List.countP_pos_iff, List.any_eq_true]

/-- What a summary says about files. -/
structure Summary.Describes (s : Summary) (results : List FileResult) : Prop where
  filesChecked : s.filesChecked = results.length
  filesWithErrors : s.filesWithErrors = results.countP fun r => r.violations.any (·.isError)
  /-- A file with errors does not count here. -/
  filesWithWarnings : s.filesWithWarnings
    = results.countP fun r => r.violations.any (·.isWarning) && !r.violations.any (·.isError)
  totalErrors : s.totalErrors = total (results.map fun r => r.violations.countP (·.isError))
  totalWarnings : s.totalWarnings = total (results.map fun r => r.violations.countP (·.isWarning))
  error_iff : s.mostSevere = .error ↔ 0 < s.totalErrors
  warning_iff : s.mostSevere = .warning ↔ s.totalErrors = 0 ∧ 0 < s.totalWarnings
  none_iff : s.mostSevere = .none ↔ s.totalErrors = 0 ∧ s.totalWarnings = 0

theorem totalErrors_of (results : List FileResult) :
    (Summary.of results).totalErrors
      = total (results.map fun r => r.violations.countP (·.isError)) := by
  show total (results.map fun r => r.errorCount) = _
  simp only [FileResult.errorCount_eq]

theorem totalWarnings_of (results : List FileResult) :
    (Summary.of results).totalWarnings
      = total (results.map fun r => r.violations.countP (·.isWarning)) := by
  show total (results.map fun r => r.warningCount) = _
  simp only [FileResult.warningCount_eq]

/-- A file counts here if it has an error, however many it has. -/
theorem filesWithErrors_of (results : List FileResult) :
    (Summary.of results).filesWithErrors
      = results.countP fun r => r.violations.any (·.isError) := by
  show (results.filter fun r => decide (0 < r.errorCount)).length = _
  rw [← List.countP_eq_length_filter]
  refine List.countP_congr fun r _ => ?_
  rw [r.errorCount_eq, countP_pos_eq_any]

theorem filesWithWarnings_of (results : List FileResult) :
    (Summary.of results).filesWithWarnings = results.countP fun r =>
      r.violations.any (·.isWarning) && !r.violations.any (·.isError) := by
  show (results.filter fun r => decide (0 < r.warningCount) && r.errorCount == 0).length = _
  rw [← List.countP_eq_length_filter]
  refine List.countP_congr fun r _ => ?_
  have hzero : (r.errorCount == 0) = !r.violations.any (·.isError) := by
    rw [← countP_pos_eq_any, ← r.errorCount_eq, Bool.eq_iff_iff]
    simp
  rw [hzero, r.warningCount_eq, countP_pos_eq_any]

/-- Every violation is either an error or a warning. -/
theorem countP_isError_add_isWarning (vs : List Violation) :
    vs.countP (·.isError) + vs.countP (·.isWarning) = vs.length := by
  rw [List.length_eq_countP_add_countP fun v : Violation => v.isError]
  refine congrArg _ (List.countP_congr fun v _ => ?_)
  rw [v.isWarning_eq_not, decide_eq_true_iff, Bool.not_eq_true', Bool.not_eq_true]

/-- The summary of a run describes its files. Level and totals are found in different ways, and
agree since both are those of all violations. -/
theorem describes_of (results : List FileResult) : (Summary.of results).Describes results := by
  -- the level and the totals are both brought back to the violations of all files
  have herrors := (totalErrors_of results).trans (total_countP _ results)
  have hwarnings := (totalWarnings_of results).trans (total_countP _ results)
  have hall := countP_isError_add_isWarning (allViolations results)
  have herror : (Summary.of results).mostSevere = .error ↔ 0 < (Summary.of results).totalErrors := by
    rw [mostSevere_of, mostSevere_eq_error_iff, herrors, List.countP_pos_iff]
  have hnone : (Summary.of results).mostSevere = .none
      ↔ (Summary.of results).totalErrors = 0 ∧ (Summary.of results).totalWarnings = 0 := by
    rw [mostSevere_of, mostSevere_eq_none_iff, ← List.length_eq_zero_iff]
    omega
  refine ⟨rfl, filesWithErrors_of results, filesWithWarnings_of results, totalErrors_of results,
    totalWarnings_of results, herror, ?_, hnone⟩
  rw [Level.eq_warning_iff, ne_eq, ne_eq, herror, hnone]
  omega

/-! ## Exit codes -/

/-- The exit code for violations: one for errors, a set one for warnings. -/
def exitCodeOf (violations : List Violation) (warningExitCode : Number) : Number :=
  if violations.any (·.isError) then 1
  else if violations = [] then 0
  else warningExitCode

/-- The exit code of a run follows from all its violations, and from nothing that is
counted. -/
theorem exitCode_summary (results : List FileResult) (warningExitCode : Number) :
    (Summary.of results).exitCode warningExitCode
      = exitCodeOf (allViolations results) warningExitCode := by
  rw [Summary.exitCode, mostSevere_of, exitCodeOf]
  cases hlevel : mostSevere (allViolations results) with
  | error =>
    rw [mostSevere_eq_error_iff, ← List.any_eq_true] at hlevel
    rw [if_pos hlevel]
    rfl
  | none =>
    rw [mostSevere_eq_none_iff] at hlevel
    rw [hlevel]
    rfl
  | warning =>
    obtain ⟨herror, hnone⟩ := Level.eq_warning_iff.mp hlevel
    rw [ne_eq, mostSevere_eq_error_iff, ← List.any_eq_true] at herror
    rw [ne_eq, mostSevere_eq_none_iff] at hnone
    rw [if_neg herror, if_neg hnone]

/-- Without errors the exit code depends on whether there are warnings. -/
theorem exitCodeOf_of_errorFree {violations : List Violation} (h : ErrorFree violations)
    (warningExitCode : Number) :
    exitCodeOf violations warningExitCode
      = if violations.any (·.isWarning) then warningExitCode else 0 := by
  have herror : violations.any (·.isError) = false := List.any_eq_false.mpr fun v hv => by
    rw [h v hv]
    exact Bool.false_ne_true
  rw [exitCodeOf, herror, if_neg Bool.false_ne_true]
  cases violations with
  | nil => rfl
  | cons v vs =>
    have hwarning : v.isWarning = true := by
      rw [v.isWarning_eq_not, h v List.mem_cons_self]
      rfl
    rw [if_neg (List.cons_ne_nil v vs), List.any_cons, hwarning]
    rfl

end MetadataBlock
