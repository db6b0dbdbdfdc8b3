import Mathlib.Data.List.Basic
import MetadataBlock.Settings.Config

/-!
# The check of settings

The check of untyped data lets exactly the valid settings through: lists of texts that
are not empty, and integers within their bounds. Settings that were checked keep their
values when they are checked again.

- `Number.integer?`, `Bound.Holds`: integers within bounds, zero having no sign;
- `LintConfig.Valid`, `CommandLineSettings.Valid`: the conditions on settings;
- `issues_checkIdentifiers_texts`, `issues_checkCount`: the checks of lists and of numbers;
- `valid_of_ofData`: settings that were read are valid;
- `check_toData_issues_iff`, `check_toData_value`: settings that are checked again;
- `merge_valid_iff`: settings of two sources are valid if those of both sources are.
-/

namespace MetadataBlock

/-- The integer that a value is; zero has no sign. -/
def Number.integer? : Number → Option Int
  | .whole n => some n
  | .negZero => some 0
  | _ => none

/-- Valid settings. -/
structure LintConfig.Valid (c : LintConfig) : Prop where
  identifiers : ∀ t ∈ c.error ++ c.warn ++ c.skip, t ≠ []
  warningExitCode : ∃ n, c.warningExitCode.integer? = some n ∧ 0 ≤ n ∧ n ≤ 255
  minPrefixLength : ∀ x ∈ c.minPrefixLength, ∃ n, x.integer? = some n ∧ 1 ≤ n
  typoThreshold : ∀ x ∈ c.typoThreshold, ∃ n, x.integer? = some n ∧ 0 ≤ n

/-- Valid settings of the command line; what is not given is not looked at. -/
structure CommandLineSettings.Valid (s : CommandLineSettings) : Prop where
  identifiers : ∀ t ∈ s.error ++ s.warn ++ s.skip, t ≠ []
  warningExitCode : ∀ x ∈ s.warningExitCode, ∃ n, x.integer? = some n ∧ 0 ≤ n ∧ n ≤ 255
  minPrefixLength : ∀ x ∈ s.minPrefixLength, ∃ n, x.integer? = some n ∧ 1 ≤ n
  typoThreshold : ∀ x ∈ s.typoThreshold, ∃ n, x.integer? = some n ∧ 0 ≤ n

namespace Settings

/-! ## Fields -/

theorem field?_cons_self (name : Text) (d : Data) (fields : List (Text × Data)) :
    Data.field? ((name, d) :: fields) name = some d := by
  simp [Data.field?]

theorem field?_cons_of_ne {name name' : Text} (h : name ≠ name') (d : Data)
    (fields : List (Text × Data)) :
    Data.field? ((name, d) :: fields) name' = Data.field? fields name' := by
  simp [Data.field?, h]

theorem mem_orderFields {α : Type} {fields : List (Text × α)} {f : Text × α} :
    f ∈ Json.orderFields fields ↔ f ∈ fields :=
  (Json.perm_orderFields fields).mem_iff

/-- No field is unknown if all names are those of settings. -/
theorem unknownFields_eq_nil_iff {fields : List (Text × Data)} :
    unknownFields fields = [] ↔ ∀ f ∈ fields, f.1 ∈ names := by
  have hfilter : ((Json.orderFields fields).map (·.1)).filter (fun name => !names.contains name) = []
      ↔ ∀ f ∈ fields, f.1 ∈ names := by
    rw [List.filter_eq_nil_iff, List.forall_mem_map]
    simp [mem_orderFields]
  rw [← hfilter, unknownFields]
  split
  · next h => exact iff_of_true rfl h
  · next h => exact iff_of_false (List.cons_ne_nil _ _) h

/-! ## Lists -/

/-- A checked identifier is not empty. -/
theorem value_checkIdentifier_ne_nil {path : List Text} {d : Data}
    (h : (checkIdentifier path d).issues = []) : (checkIdentifier path d).value ≠ [] := by
  unfold checkIdentifier at h ⊢
  split at h
  · cases h
  · next hne => exact hne
  · cases h

theorem value_checkIdentifier_text (path : List Text) (t : Text) :
    (checkIdentifier path (.text t)).value = t := by
  cases t <;> rfl

theorem issues_checkIdentifier_text {path : List Text} {t : Text} :
    (checkIdentifier path (.text t)).issues = [] ↔ t ≠ [] := by
  cases t with
  | nil => exact iff_of_false (List.cons_ne_nil _ _) fun h => h rfl
  | cons u rest => exact iff_of_true rfl (List.cons_ne_nil _ _)

/-- The identifiers of a checked list are not empty. Whatever is no list, or no text, or empty,
has an issue. -/
theorem value_checkIdentifiers_ne_nil {name : Text} {d : Data}
    (h : (checkIdentifiers name d).issues = []) : ∀ t ∈ (checkIdentifiers name d).value, t ≠ [] := by
  unfold checkIdentifiers at h ⊢
  split at h
  · exact List.forall_mem_nil _
  · rw [List.flatMap_eq_nil_iff, List.forall_mem_map] at h
    rw [List.forall_mem_map, List.forall_mem_map]
    exact fun item hitem => value_checkIdentifier_ne_nil (h item hitem)
  · cases h

/-- A list of texts keeps its texts, also if some of them have issues. -/
theorem value_checkIdentifiers_texts (name : Text) (ts : List Text) :
    (checkIdentifiers name (.list (ts.map .text))).value = ts := by
  simp only [checkIdentifiers, List.zipIdx_map, List.map_map]
  conv_rhs => rw [← List.zipIdx_map_fst 0 ts]
  exact List.map_congr_left fun placed _ => value_checkIdentifier_text _ placed.1

/-- A list of texts is let through if none of them is empty. -/
theorem issues_checkIdentifiers_texts {name : Text} {ts : List Text} :
    (checkIdentifiers name (.list (ts.map .text))).issues = [] ↔ ∀ t ∈ ts, t ≠ [] := by
  simp only [checkIdentifiers, List.zipIdx_map, List.map_map]
  rw [List.flatMap_eq_nil_iff, List.forall_mem_map]
  constructor
  · intro h t ht
    rw [← List.zipIdx_map_fst 0 ts, List.mem_map] at ht
    obtain ⟨placed, hplaced, rfl⟩ := ht
    exact issues_checkIdentifier_text.mp (h placed hplaced)
  · intro h placed hplaced
    exact issues_checkIdentifier_text.mpr (h placed.1 (List.fst_mem_of_mem_zipIdx hplaced))

/-! ## Numbers -/

/-- Does an integer keep to a bound? -/
def Bound.Holds (n : Int) : Bound → Prop
  | atLeast k => k ≤ n
  | atMost k => n ≤ k

@[simp]
theorem Bound.holds_atLeast {n k : Int} : (atLeast k).Holds n ↔ k ≤ n := Iff.rfl

@[simp]
theorem Bound.holds_atMost {n k : Int} : (atMost k).Holds n ↔ n ≤ k := Iff.rfl

/-- An integer has no issue with a bound if it keeps to it. Minus zero is compared as zero. -/
theorem Bound.issue?_eq_none_iff {path : List Text} {x : Number} {n : Int} (hx : x.integer? = some n)
    {b : Bound} : b.issue? path x = none ↔ b.Holds n := by
  cases x with
  | whole | negZero =>
    cases hx
    cases b with
    | atLeast k => simp [issue?, Holds, Number.atLeast, Number.floor?]
    | atMost k => simp [issue?, Holds, Number.atMost]
  | nan | infinity | dyadic => cases hx

theorem issues_checkCount_of_integer {name : Text} {bounds : List Bound} {x : Number} {n : Int}
    (hx : x.integer? = some n) :
    (checkCount name bounds (.number x)).issues = [] ↔ ∀ b ∈ bounds, b.Holds n := by
  have hissues : (checkCount name bounds (.number x)).issues
      = bounds.filterMap (Bound.issue? [name] x) := by
    cases x with
    | whole | negZero => rfl
    | nan | infinity | dyadic => cases hx
  rw [hissues, List.filterMap_eq_nil_iff]
  exact forall₂_congr fun b _ => Bound.issue?_eq_none_iff hx

/-- A number is let through if it is an integer within the bounds. A number that is no integer
has an issue before any bound is looked at. -/
theorem issues_checkCount_number {name : Text} {bounds : List Bound} {x : Number} :
    (checkCount name bounds (.number x)).issues = []
      ↔ ∃ n, x.integer? = some n ∧ ∀ b ∈ bounds, b.Holds n := by
  cases hx : x.integer? with
  | some n =>
    rw [issues_checkCount_of_integer hx]
    simp
  | none =>
    refine iff_of_false ?_ (by rintro ⟨_, ⟨⟩, _⟩)
    cases x with
    | nan | infinity | dyadic => exact List.cons_ne_nil _ _
    | whole | negZero => cases hx

/-- A checked number is an integer within the bounds; what is absent was not looked at. -/
theorem value_checkCount_holds {name : Text} {bounds : List Bound} {d : Data}
    (h : (checkCount name bounds d).issues = []) :
    ∀ x ∈ (checkCount name bounds d).value, ∃ n, x.integer? = some n ∧ ∀ b ∈ bounds, b.Holds n := by
  intro x hx
  cases d with
  | number y =>
    have hy := issues_checkCount_number.mp h
    cases y with
    | nan => cases h
    | infinity | negZero | whole | dyadic =>
      cases hx
      exact hy
  | absent => cases hx
  | null | bool | integer | date | text | list | object | set => cases hx

/-- An optional number as data. -/
def numberData (x : Option Number) : Data :=
  (x.map Data.number).getD .absent

theorem issues_checkCount {name : Text} {bounds : List Bound} {o : Option Number} :
    (checkCount name bounds (numberData o)).issues = []
      ↔ ∀ x ∈ o, ∃ n, x.integer? = some n ∧ ∀ b ∈ bounds, b.Holds n := by
  cases o with
  | none => exact iff_of_true rfl nofun
  | some x =>
    rw [numberData, Option.map_some, Option.getD_some, issues_checkCount_number]
    simp

/-- A number that is let through is kept, and so is its absence. -/
theorem value_checkCount {name : Text} {bounds : List Bound} {o : Option Number}
    (h : (checkCount name bounds (numberData o)).issues = []) :
    (checkCount name bounds (numberData o)).value = o := by
  cases o with
  | none => rfl
  | some x => cases x with
    | nan => cases h
    | infinity | negZero | whole | dyadic => rfl

/-! ## Settings -/

/-- Settings without issues are valid. Field by field, the absence of issues is the condition
on its value. -/
theorem valid_of_check {d : Data} (h : (check d).issues = []) : (check d).value.Valid := by
  unfold check at h ⊢
  split at h
  · next fields =>
    simp only [List.append_eq_nil_iff] at h
    obtain ⟨⟨⟨⟨⟨⟨herror, hwarn⟩, hskip⟩, hcode⟩, hlength⟩, hthreshold⟩, -⟩ := h
    refine ⟨?_, ?_, fun x hx => ?_, fun x hx => ?_⟩
    · simp only [List.forall_mem_append]
      exact ⟨⟨value_checkIdentifiers_ne_nil herror, value_checkIdentifiers_ne_nil hwarn⟩,
        value_checkIdentifiers_ne_nil hskip⟩
    · -- an exit code that is not given is zero
      simp only
      cases hvalue : (checkCount "warningExitCode" [.atLeast 0, .atMost 255]
          ((Data.field? fields "warningExitCode").getD .absent)).value with
      | none => exact ⟨0, rfl, by decide, by decide⟩
      | some x => simpa using value_checkCount_holds hcode x hvalue
    · obtain ⟨n, hn, hbounds⟩ := value_checkCount_holds hlength x hx
      exact ⟨n, hn, hbounds (.atLeast 1) (by simp)⟩
    · simpa using value_checkCount_holds hthreshold x hx
  · cases h

end Settings

open Settings

/-- Settings that were read are valid. -/
theorem LintConfig.valid_of_ofData {d : Data} {source : Text} {c : LintConfig}
    (h : LintConfig.ofData d source = .ok c) : c.Valid := by
  simp only [LintConfig.ofData] at h
  split at h
  · next hissues =>
    cases h
    exact valid_of_check hissues
  · cases h

section

variable {c : LintConfig}

/-- What is found when settings are checked again: each field is checked by itself, and there
are no others. -/
theorem check_toData (c : LintConfig) :
    check c.toData =
      let error := checkIdentifiers "error" (.list (c.error.map .text))
      let warn := checkIdentifiers "warn" (.list (c.warn.map .text))
      let skip := checkIdentifiers "skip" (.list (c.skip.map .text))
      let code := checkCount "warningExitCode" [.atLeast 0, .atMost 255]
        (numberData (some c.warningExitCode))
      let length := checkCount "minPrefixLength" [.atLeast 0, .atLeast 1] (numberData c.minPrefixLength)
      let threshold := checkCount "typoThreshold" [.atLeast 0] (numberData c.typoThreshold)
      { value :=
          { error := error.value
            warn := warn.value
            skip := skip.value
            warningExitCode := code.value.getD 0
            minPrefixLength := length.value
            typoThreshold := threshold.value }
        issues := error.issues ++ warn.issues ++ skip.issues ++ code.issues ++ length.issues
          ++ threshold.issues } := by
  have hfields : unknownFields
      [("error", .list (c.error.map .text)), ("warn", .list (c.warn.map .text)),
       ("skip", .list (c.skip.map .text)), ("warningExitCode", .number c.warningExitCode),
       ("minPrefixLength", numberData c.minPrefixLength),
       ("typoThreshold", numberData c.typoThreshold)] = [] := by
    rw [unknownFields_eq_nil_iff]
    exact fun f hf => List.mem_map_of_mem (f := Prod.fst) hf
  have hcode : numberData (some c.warningExitCode) = .number c.warningExitCode := rfl
  simp (disch := decide) only [check, LintConfig.toData, field?_cons_self, field?_cons_of_ne,
    Option.getD_some, hcode]
  exact congrArg _ ((congrArg (_ ++ ·) hfields).trans (List.append_nil _))

/-- Settings that are checked again are let through exactly if they are valid. So the check and
the conditions on settings say the same. -/
theorem check_toData_issues_iff : (check c.toData).issues = [] ↔ c.Valid := by
  simp only [check_toData, List.append_eq_nil_iff, issues_checkIdentifiers_texts,
    issues_checkCount]
  simp only [List.mem_cons, List.not_mem_nil, or_false, forall_eq_or_imp, forall_eq,
    Bound.holds_atLeast, Bound.holds_atMost]
  constructor
  · rintro ⟨⟨⟨⟨⟨herror, hwarn⟩, hskip⟩, hcode⟩, hlength⟩, hthreshold⟩
    refine ⟨?_, hcode _ rfl, fun x hx => ?_, hthreshold⟩
    · simp only [List.forall_mem_append]
      exact ⟨⟨herror, hwarn⟩, hskip⟩
    · obtain ⟨n, hn, -, hone⟩ := hlength x hx
      exact ⟨n, hn, hone⟩
  · rintro ⟨hidentifiers, hcode, hlength, hthreshold⟩
    simp only [List.forall_mem_append] at hidentifiers
    refine ⟨⟨⟨hidentifiers, ?_⟩, fun x hx => ?_⟩, hthreshold⟩
    · rintro x ⟨⟩
      exact hcode
    · obtain ⟨n, hn, hone⟩ := hlength x hx
      exact ⟨n, hn, by omega, hone⟩

/-- Settings that are let through keep their values. -/
theorem check_toData_value (h : (check c.toData).issues = []) : (check c.toData).value = c := by
  simp only [check_toData, List.append_eq_nil_iff] at h ⊢
  obtain ⟨⟨⟨-, hcode⟩, hlength⟩, hthreshold⟩ := h
  rw [value_checkIdentifiers_texts, value_checkIdentifiers_texts, value_checkIdentifiers_texts,
    value_checkCount hcode, value_checkCount hlength, value_checkCount hthreshold]
  rfl

end

theorem ofData_toData (c : LintConfig) (source : Text) :
    LintConfig.ofData c.toData source
      = match (check c.toData).issues with
        | [] => .ok (check c.toData).value
        | issues => .error (.config
            ("Invalid " ++ source ++ ":\n" ++ Text.joinWith "\n" (issues.map (·.text)))) := rfl

section

variable {F : LintConfig} {C : CommandLineSettings}

/-- Settings of a file and of the command line are valid together if the latter are. Lists are
joined, so each part of them has to be valid; a number is taken from one of the two. -/
theorem merge_valid_iff (hF : F.Valid) : (F.merge C).Valid ↔ C.Valid := by
  constructor
  · intro h
    -- all that the command line gives is among the settings taken together
    refine ⟨fun t ht => h.identifiers t ?_, fun x hx => ?_, fun x hx => ?_, fun x hx => ?_⟩
    · simp only [LintConfig.merge, List.mem_append] at ht ⊢
      tauto
    · have hcode := h.warningExitCode
      rw [LintConfig.merge, Option.mem_def.mp hx] at hcode
      exact hcode
    · refine h.minPrefixLength x ?_
      rw [LintConfig.merge, Option.mem_def.mp hx]
      rfl
    · refine h.typoThreshold x ?_
      rw [LintConfig.merge, Option.mem_def.mp hx]
      rfl
  · intro h
    -- what it does not give comes from the file
    refine ⟨fun t ht => ?_, ?_, ?_, ?_⟩
    · have hmem : t ∈ F.error ++ F.warn ++ F.skip ∨ t ∈ C.error ++ C.warn ++ C.skip := by
        simp only [LintConfig.merge, List.mem_append] at ht ⊢
        tauto
      exact hmem.elim (hF.identifiers t) (h.identifiers t)
    · rw [LintConfig.merge]
      cases hcode : C.warningExitCode with
      | none => exact hF.warningExitCode
      | some x => exact h.warningExitCode x hcode
    · rw [LintConfig.merge]
      cases hlength : C.minPrefixLength with
      | none => exact hF.minPrefixLength
      | some x =>
        rintro y ⟨⟩
        exact h.minPrefixLength x hlength
    · rw [LintConfig.merge]
      cases hthreshold : C.typoThreshold with
      | none => exact hF.typoThreshold
      | some x =>
        rintro y ⟨⟩
        exact h.typoThreshold x hthreshold

/-- Valid settings of the command line are merged with those of the file. -/
theorem withCommandLine_ok (hF : F.Valid) (hC : C.Valid) :
    F.withCommandLine C = .ok (F.merge C) := by
  have hissues := check_toData_issues_iff.mpr ((merge_valid_iff hF).mpr hC)
  rw [LintConfig.withCommandLine, ofData_toData, hissues]
  exact congrArg Except.ok (check_toData_value hissues)

/-- Other settings of the command line are an error that lists what is wrong, which is never
nothing. -/
theorem withCommandLine_error (hF : F.Valid) (hC : ¬ C.Valid) :
    ∃ issues : List Issue, issues ≠ [] ∧ F.withCommandLine C = .error (.config
      ("Invalid command-line options:\n" ++ Text.joinWith "\n" (issues.map (·.text)))) := by
  have hissues : (check (F.merge C).toData).issues ≠ [] := fun hnil =>
    hC ((merge_valid_iff hF).mp (check_toData_issues_iff.mp hnil))
  refine ⟨_, hissues, ?_⟩
  rw [LintConfig.withCommandLine, ofData_toData]
  split
  · next hnil => exact absurd hnil hissues
  · rfl

end

end MetadataBlock
