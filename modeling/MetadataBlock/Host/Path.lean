import MetadataBlock.Text.Basic

/-!
# Paths

Paths are texts with `/` between components. Everything here is lexical: no
component is looked up anywhere.

- `Path.extension`: the part of the file name from its last dot on;
- `Path.withExtension`: the normalised path with another extension;
- `Path.resolve`: the components of a path seen from a directory, with `.` and
  `..` carried out.
-/

namespace MetadataBlock.Path

def slash : UInt16 := 0x2F

/-- The component that stands for the directory itself. -/
def here : Text := "."

/-- The component that stands for the directory above. -/
def above : Text := ".."

def isAbsolute (path : Text) : Bool :=
  path.head? == some slash

/-- The components, without the empty ones that repeated slashes leave. -/
def components (path : Text) : List Text :=
  (Text.splitOn slash path).filter (!·.isEmpty)

/-- The last component; slashes at the end do not count. -/
def fileName (path : Text) : Text :=
  ((components path).getLast?).getD []

/-- The part of a file name from its last dot on. A dot at the start begins no
extension, and neither do the two dots of the directory above. -/
def extensionOf (name : Text) : Text :=
  let dot := Text.unit '.'
  let tail := (name.reverse.takeWhile (· != dot)).reverse
  if name == above || name.length ≤ tail.length + 1 then [] else dot :: tail

/-- The extension of a path. -/
def extension (path : Text) : Text :=
  extensionOf (fileName path)

/-- Carry out one component. `..` leaves the last directory, and at the top it
stays, if the path may lead above its start, or is dropped. -/
def step (mayLeave : Bool) (done : List Text) (c : Text) : List Text :=
  if c == here then done
  else if c == above then
    match done.getLast? with
    | some last => if last == above then done ++ [c] else done.dropLast
    | none => if mayLeave then [c] else []
  else done ++ [c]

/-- Carry out components in order. -/
def walk (mayLeave : Bool) (start cs : List Text) : List Text :=
  cs.foldl (step mayLeave) start

/-- The path with its extension replaced, in normal form. -/
def withExtension (path ext : Text) : Text :=
  let name := fileName path
  let stem := name.take (name.length - (extensionOf name).length)
  let directory := walk (!isAbsolute path) [] (components path).dropLast
  (if isAbsolute path then [slash] else []) ++ Text.joinWith [slash] (directory ++ [stem ++ ext])

/-- The components of a path from the root, seen from a directory. -/
def resolve (directory : List Text) (path : Text) : List Text :=
  walk false (if isAbsolute path then [] else directory) (components path)

end MetadataBlock.Path
