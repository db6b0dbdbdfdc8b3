import MetadataBlock.Lint.Catalog

/-!
# Overrides

An override sets the severity of a rule or skips it. A skipped rule reports
nothing; every other rule runs at its own severity or at the one that is set.
-/

namespace MetadataBlock

/-- What is to happen to a rule. -/
inductive Override where
  | severity (s : Severity)
  | skip
  deriving DecidableEq, Repr

def Override.text : Override → Text
  | .severity s => s.text
  | .skip => "skip"

/-- Overrides by rule; at most one for a rule. -/
abbrev Overrides := List (RuleName × Override)

namespace Overrides

/-- The override of a rule. -/
def get? (overrides : Overrides) (name : RuleName) : Option Override :=
  overrides.lookup name

/-- Set the override of a rule. -/
def set (overrides : Overrides) (name : RuleName) (o : Override) : Overrides :=
  if overrides.any (·.1 == name) then
    overrides.map fun (n, old) => if n == name then (n, o) else (n, old)
  else overrides ++ [(name, o)]

end Overrides

/-- Rule identifiers, names or codes, by what is requested for them. -/
structure OverrideRequest where
  error : List Text := []
  warn : List Text := []
  skip : List Text := []
  deriving DecidableEq

namespace OverrideRequest

/-- All requests in order: errors, warnings, skips. A later one wins. -/
def actions (r : OverrideRequest) : List (Text × Override) :=
  r.error.map (·, .severity .error) ++ r.warn.map (·, .severity .warning) ++ r.skip.map (·, .skip)

/-- The overrides that carry out the requests, or the first identifier that names
no rule. -/
def resolve (r : OverrideRequest) : Except Text Overrides :=
  r.actions.foldlM (fun overrides (identifier, o) =>
    match Catalog.find? identifier with
    | some rule => .ok (overrides.set rule.name o)
    | none => .error identifier) []

end OverrideRequest

/-- What overrides make of a rule. -/
inductive Resolution where
  | active (severity : Severity)
  | skipped
  deriving DecidableEq, Repr

/-- Is a rule run, and at which severity? -/
def RuleInfo.resolve (rule : RuleInfo) (overrides : Overrides) : Resolution :=
  match overrides.get? rule.name with
  | some .skip => .skipped
  | some (.severity s) => .active s
  | none => .active rule.defaultSeverity

/-- The violations of a rule under overrides. -/
def Rule.apply {ι : Type} (rule : Rule ι) (overrides : Overrides) (input : ι) : List Violation :=
  match rule.resolve overrides with
  | .skipped => []
  | .active severity => rule.run severity input

end MetadataBlock
