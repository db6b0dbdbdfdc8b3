import MetadataBlock.Document.Reading
import MetadataBlock.Yaml.Conversion
import MetadataBlock.Yaml.Stream

/-!
# Reading YAML sources

`read` makes a document of a source; a fault gives one violation and no document,
since further checks would only repeat the same defect. An alias inside the node that it
refers to keeps a document from being finished at all. `readData` reads a source whose
shape is not known yet; what a parser has to remark about a source that it can read is
not part of the answer.
-/

namespace MetadataBlock.Yaml

/-- The position of an offset in a source whose lines begin at given offsets. -/
def positionOf (starts : List Nat) (offset : Nat) : Position :=
  let (line, column) := lineColumn starts offset
  ⟨line, some column⟩

/-- A source that cannot be read. -/
def unreadable (message : Text) (position : Option Position) : Reading :=
  { document := none
    violations := [.atPosition .error (.reader .parseDocument) message position] }

/-- Read a document. Without any content it has no sections. -/
def read (source : Text) : Reading :=
  let starts := lineStarts source
  match parseTree source with
  | .error f => unreadable (f.text source) (some (positionOf starts f.offset))
  | .ok none => { document := some ⟨[], some ⟨1, some 1⟩⟩, violations := [] }
  | .ok (some tree) =>
    match (tree.toNode (positionOf starts) []).1 with
    | none => { document := none, violations := [], endless := true }
    | some root =>
      match root.mapping? with
      | some document => { document := some document, violations := [] }
      | none =>
        unreadable "The document root must map section keywords to lists of entries." root.position

/-- Read data, or say in one line why that is impossible. -/
def readData (source : Text) : Except Text Data :=
  match parseTree source with
  | .error f => .error (f.text source)
  | .ok none => .ok .null
  | .ok (some tree) =>
    match tree.toData.run [] with
    | .ok (data, _) => .ok data
    | .error f => .error (Text.firstLine f.message)

end MetadataBlock.Yaml
