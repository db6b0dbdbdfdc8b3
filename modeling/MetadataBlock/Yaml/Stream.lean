import MetadataBlock.Yaml.Compose
import MetadataBlock.Yaml.Scan

/-!
# Sources with one document

`parseTree` reads the only document of a source. Directives before it take effect,
and a second document is a fault. A fault in the directives behind the document is
reported only if no second document follows them.
-/

namespace MetadataBlock.Yaml

/-- The state of reading a source part by part. -/
structure Stream where
  directives : Directives := {}
  /-- Have there been directives since the last document? -/
  atDirectives : Bool := false
  root : Option Tree := none
  /-- The first fault behind the document that is not reported yet. -/
  pending : Option Fault := none

namespace Stream

/-- A fault that belongs to the next document, if there is one. -/
def postpone (s : Stream) (f : Fault) : Checked Stream :=
  if s.root.isSome then .ok { s with pending := s.pending <|> some f } else .error f

/-- Report a fault that was postponed. -/
def settle (s : Stream) : Checked Stream :=
  match s.pending with
  | some f => .error f
  | none => .ok s

/-- Take a part. -/
def add (s : Stream) : Part → Checked Stream
  | .filler _ => .ok s
  | .directive offset source =>
    let s := { s with atDirectives := true }
    match s.directives.add source offset with
    | .ok directives => .ok { s with directives }
    | .error f => s.postpone f
  | .error offset message source =>
    let f : Fault := ⟨.misplaced message source, offset⟩
    if s.atDirectives then s.postpone f else .error f
  | .document d => do
    faultIf s.root.isSome .severalDocuments d.offset
    let root ← composeDocument s.directives d
    faultIf (s.atDirectives && !d.hasMarker) .missingStartMarker d.offset
    return { s with root := some root, atDirectives := false }
  | .documentEnd offset source trail => do
    if s.root.isNone then fault .endWithoutDocument offset
    let s ← s.settle
    let _ ← readTrail true (offset + source.length) trail
    return s

/-- End a source of a length. -/
def finish (s : Stream) (length : Nat) : Checked (Option Tree) := do
  let s ← s.settle
  faultIf (s.root.isNone && s.atDirectives) .missingMarker length
  return s.root

end Stream

/-- The tree of the only document of a source; none if there is no document. -/
def parseTree (source : Text) : Checked (Option Tree) := do
  let s ← (arrange (scan source)).foldlM Stream.add {}
  s.finish source.length

end MetadataBlock.Yaml
