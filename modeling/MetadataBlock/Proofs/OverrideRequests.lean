import Mathlib.Data.List.Nodup
import MetadataBlock.Lint.Override
import MetadataBlock.Proofs.FirstOccurrence

/-!
# Requests for overrides

Requests are carried out one after the other and a later one replaces an earlier one, so
that a skip wins over a warning and a warning over an error. What comes of all requests
depends only on which rules each list names: not on the order inside a list, on
repetitions, or on the spelling of an identifier.

- `Overrides.get?_set`: a set override is the one that is found;
- `Catalog.find?_eq_some_iff`: which identifiers stand for a rule;
- `exists_foldlM_carryOut`: what the requests of one list leave;
- `OverrideRequest.requested`, `SameRules.requested_eq`, `resolve_ok`: the override of every
  rule, which depends on the rules that the lists name only;
- `resolve_error`: the first identifier that names no rule.
-/

namespace MetadataBlock

/-! ## Overrides -/

namespace Overrides

theorem get?_cons (n name : RuleName) (o : Override) (rest : Overrides) :
    get? ((n, o) :: rest) name = if name = n then some o else rest.get? name := by
  rw [get?, List.lookup_cons]
  by_cases h : name = n
  · rw [if_pos h, beq_iff_eq.mpr h]
  · rw [if_neg h, beq_eq_false_iff_ne.mpr h]
    rfl

/-- A rule has an override if one is listed for it. -/
theorem isSome_get?_iff {overrides : Overrides} {name : RuleName} :
    (overrides.get? name).isSome = true ↔ overrides.any (·.1 == name) = true := by
  induction overrides with
  | nil => exact Iff.rfl
  | cons first rest ih =>
    rw [get?_cons, List.any_cons, Bool.or_eq_true, beq_iff_eq, ← ih]
    by_cases h : name = first.1
    · simp [h]
    · simp [h, Ne.symm h]

/-- Replacing the override of a rule, if it has one. -/
theorem get?_map_set (overrides : Overrides) (name name' : RuleName) (o : Override) :
    get? (overrides.map fun (n, old) => if n == name then (n, o) else (n, old)) name'
      = if name' = name then (overrides.get? name).map fun _ => o else overrides.get? name' := by
  induction overrides with
  | nil => exact (ite_self _).symm
  | cons first rest ih =>
    obtain ⟨n, old⟩ := first
    have hhead : (if n == name then (n, o) else (n, old)) = (n, if n = name then o else old) := by
      by_cases h : n = name <;> simp [h]
    show get? ((if n == name then (n, o) else (n, old)) :: _) name' = _
    rw [hhead, get?_cons, get?_cons, get?_cons, ih]
    by_cases hn : n = name
    · subst hn
      by_cases hname : name' = n <;> simp [hname]
    · by_cases hname : name' = n
      · subst hname
        simp [hn]
      · simp [hname, Ne.symm hn]

/-- A set override is the one that is found; those of other rules stay. An override that is
listed already is replaced in its place, and a new one is added. -/
theorem get?_set (overrides : Overrides) (name name' : RuleName) (o : Override) :
    (overrides.set name o).get? name' = if name' = name then some o else overrides.get? name' := by
  rw [set]
  split
  · next hany =>
    rw [get?_map_set]
    obtain ⟨old, hold⟩ := Option.isSome_iff_exists.mp (isSome_get?_iff.mpr hany)
    rw [hold]
    rfl
  · next hany =>
    have hnone : overrides.get? name = none := by
      rw [← Option.not_isSome_iff_eq_none, isSome_get?_iff]
      exact hany
    -- a new override is put behind those that are there
    have happend : get? (overrides ++ [(name, o)]) name'
        = (overrides.get? name').or (get? [(name, o)] name') := List.lookup_append
    rw [happend, get?_cons]
    by_cases hname : name' = name
    · rw [if_pos hname, if_pos hname, hname, hnone]
      rfl
    · rw [if_neg hname, if_neg hname]
      exact Option.or_none

end Overrides

/-! ## Identifiers -/

namespace Catalog

theorem nodup_names : (infos.map (·.name.text)).Nodup := by decide +kernel

theorem nodup_codes : (infos.map (·.code)).Nodup := by decide +kernel

/-- The name of a rule is no code, in any letter case. -/
theorem lower_name_ne_code :
    ∀ rule ∈ infos, ∀ rule' ∈ infos, Text.lower rule.name.text ≠ rule'.code := by
  decide +kernel

/-- An identifier stands for a rule if it is the name of the rule or, in some letter case, its
code. Names are looked up first, and no name is a code, so it does not matter which is. -/
theorem find?_eq_some_iff {identifier : Text} {rule : RuleInfo} :
    find? identifier = some rule
      ↔ rule ∈ infos ∧ (identifier = rule.name.text ∨ Text.lower identifier = rule.code) := by
  have hcode : infos.find? (·.code == Text.lower identifier) = some rule
      ↔ rule ∈ infos ∧ rule.code = Text.lower identifier :=
    find?_eq_some_iff_of_nodup nodup_codes
  rw [find?]
  cases hname : infos.find? (·.name.text == identifier) with
  | none =>
    have hother : identifier ≠ rule.name.text ∨ rule ∉ infos := by
      by_contra hnot
      rw [not_or, not_not, not_not] at hnot
      have hrule := List.find?_eq_none.mp hname rule hnot.2
      exact hrule (beq_iff_eq.mpr hnot.1.symm)
    rw [Option.orElse_none, hcode, eq_comm (a := rule.code)]
    refine and_congr_right fun hmem => (or_iff_right ?_).symm
    exact hother.resolve_right (not_not.mpr hmem)
  | some found =>
    -- the identifier is a name, and so no code of another rule
    obtain ⟨hmem, hfound⟩ := (find?_eq_some_iff_of_nodup nodup_names).mp hname
    rw [Option.orElse_some, ← hname, find?_eq_some_iff_of_nodup nodup_names, eq_comm]
    refine and_congr_right fun hrule => (or_iff_left fun hlower => ?_).symm
    exact lower_name_ne_code found hmem rule hrule (hfound ▸ hlower)

end Catalog

namespace OverrideRequest

/-- Does the identifier stand for a rule? -/
def Known (identifier : Text) : Prop :=
  ∃ rule, Catalog.find? identifier = some rule

/-- Does the identifier stand for the rule with a name? -/
def Names (identifier : Text) (name : RuleName) : Prop :=
  (Catalog.find? identifier).map (·.name) = some name

instance (identifier : Text) (name : RuleName) : Decidable (Names identifier name) :=
  inferInstanceAs (Decidable (_ = _))

/-! ## Carrying out requests -/

/-- Carry out one request. -/
def carryOut (overrides : Overrides) (action : Text × Override) : Except Text Overrides :=
  match Catalog.find? action.1 with
  | some rule => .ok (overrides.set rule.name action.2)
  | none => .error action.1

theorem resolve_eq (r : OverrideRequest) : r.resolve = r.actions.foldlM carryOut [] := rfl

/-- What the requests of one list leave: the override that they ask for, on the rules that the
list names. The induction goes along the list and keeps what was there before for every other
rule. -/
theorem exists_foldlM_carryOut {identifiers : List Text} (h : ∀ i ∈ identifiers, Known i)
    (o : Override) (overrides : Overrides) :
    ∃ after, (identifiers.map (·, o)).foldlM carryOut overrides = .ok after ∧
      ∀ name, after.get? name
        = if ∃ i ∈ identifiers, Names i name then some o else overrides.get? name := by
  induction identifiers generalizing overrides with
  | nil => exact ⟨overrides, rfl, fun name => by simp⟩
  | cons i rest ih =>
    obtain ⟨⟨rule, hrule⟩, hrest⟩ := List.forall_mem_cons.mp h
    obtain ⟨after, hafter, hget⟩ := ih hrest (overrides.set rule.name o)
    refine ⟨after, ?_, fun name => ?_⟩
    · rw [List.map_cons, List.foldlM_cons, carryOut, hrule]
      exact hafter
    · have hnames : Names i name ↔ name = rule.name := by
        rw [Names, hrule, Option.map_some, Option.some.injEq, eq_comm]
      rw [hget, Overrides.get?_set]
      simp only [List.exists_mem_cons_iff, hnames]
      by_cases hlater : ∃ j ∈ rest, Names j name
      · rw [if_pos hlater, if_pos (.inr hlater)]
      · rw [if_neg hlater]
        exact if_congr (or_iff_left hlater).symm rfl rfl

/-- Requests stop at the first identifier that stands for no rule. Those in front of it are
carried out, and what they leave is lost with the error. -/
theorem foldlM_carryOut_error {before after : List (Text × Override)} {action : Text × Override}
    (hbefore : ∀ a ∈ before, Known a.1) (h : ¬ Known action.1) (overrides : Overrides) :
    (before ++ action :: after).foldlM carryOut overrides = .error action.1 := by
  induction before generalizing overrides with
  | nil =>
    have hnone : Catalog.find? action.1 = none := by
      cases hfind : Catalog.find? action.1 with
      | none => rfl
      | some rule => exact absurd ⟨rule, hfind⟩ h
    rw [List.nil_append, List.foldlM_cons, carryOut, hnone]
    rfl
  | cons a before ih =>
    obtain ⟨⟨rule, hrule⟩, hrest⟩ := List.forall_mem_cons.mp hbefore
    rw [List.cons_append, List.foldlM_cons, carryOut, hrule]
    exact ih hrest _

/-- All identifiers, in the order of the requests. -/
def identifiers (r : OverrideRequest) : List Text :=
  r.error ++ r.warn ++ r.skip

/-- The override that a rule is to have: a skip before a warning before an error. -/
def requested (r : OverrideRequest) (name : RuleName) : Option Override :=
  if ∃ i ∈ r.skip, Names i name then some .skip
  else if ∃ i ∈ r.warn, Names i name then some (.severity .warning)
  else if ∃ i ∈ r.error, Names i name then some (.severity .error)
  else none

/-- Two requests whose lists name the same rules. -/
structure SameRules (r q : OverrideRequest) : Prop where
  error : ∀ name, (∃ i ∈ r.error, Names i name) ↔ ∃ i ∈ q.error, Names i name
  warn : ∀ name, (∃ i ∈ r.warn, Names i name) ↔ ∃ i ∈ q.warn, Names i name
  skip : ∀ name, (∃ i ∈ r.skip, Names i name) ↔ ∃ i ∈ q.skip, Names i name

/-- Order, repetitions and spelling inside the lists do not matter. -/
theorem SameRules.requested_eq {r q : OverrideRequest} (h : r.SameRules q) (name : RuleName) :
    q.requested name = r.requested name := by
  rw [requested, requested]
  exact if_congr (h.skip name).symm rfl
    (if_congr (h.warn name).symm rfl (if_congr (h.error name).symm rfl rfl))

theorem map_fst_actions (r : OverrideRequest) : r.actions.map (·.1) = r.identifiers := by
  simp [actions, identifiers, Function.comp_def]

/-- Requests that name rules are carried out. The lists follow each other, so each of them
overrides what the ones before it have set. -/
theorem resolve_ok {r : OverrideRequest} (h : ∀ i ∈ r.identifiers, Known i) :
    ∃ overrides, r.resolve = .ok overrides ∧ ∀ name, overrides.get? name = r.requested name := by
  simp only [identifiers, List.forall_mem_append] at h
  obtain ⟨⟨herror, hwarn⟩, hskip⟩ := h
  obtain ⟨errors, herrors, hget₁⟩ := exists_foldlM_carryOut herror (.severity .error) []
  obtain ⟨warnings, hwarnings, hget₂⟩ := exists_foldlM_carryOut hwarn (.severity .warning) errors
  obtain ⟨skips, hskips, hget₃⟩ := exists_foldlM_carryOut hskip .skip warnings
  refine ⟨skips, ?_, fun name => ?_⟩
  · rw [resolve_eq, actions, List.foldlM_append, List.foldlM_append, herrors]
    exact (congrArg (· >>= _) hwarnings).trans hskips
  · rw [hget₃, hget₂, hget₁]
    rfl

/-- Otherwise the first identifier that stands for no rule is the error. -/
theorem resolve_error {r : OverrideRequest} {before after : List Text} {i : Text}
    (hsplit : r.identifiers = before ++ i :: after) (hbefore : ∀ j ∈ before, Known j)
    (h : ¬ Known i) : r.resolve = .error i := by
  rw [← map_fst_actions, List.map_eq_append_iff] at hsplit
  obtain ⟨first, last, hactions, rfl, hlast⟩ := hsplit
  obtain ⟨action, rest, rfl, rfl, rfl⟩ := List.map_eq_cons_iff.mp hlast
  rw [resolve_eq, hactions]
  exact foldlM_carryOut_error (List.forall_mem_map.mp hbefore) h []

end OverrideRequest

end MetadataBlock
