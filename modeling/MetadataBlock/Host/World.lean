import MetadataBlock.Host.Basic

/-!
# A world of files

`World` is a file system without links in memory, together with the writes carried out,
the lines printed and the remarks passed on so far. Runs in it are pure functions.
-/

namespace MetadataBlock

/-- What there can be at a place of a file system. -/
inductive FileEntry where
  | file (content : Text)
  | directory
  deriving DecidableEq

/-- Why a write fails. -/
structure WriteFault where
  fault : FileFault
  /-- What the file holds then, if the write broke off after it was opened. Opening a file
  empties it, and any part of the content may have been written. -/
  left : Option Text := none

/-- Files, the present directory, and what was written and printed. -/
structure World where
  /-- The components of the present directory. -/
  directory : List Text := []
  /-- Files and directories by the components of their place. A directory that holds
  something need not be listed. -/
  entries : List (List Text × FileEntry) := []
  /-- Why a file cannot be read, although it stands at a place. -/
  readFault : List Text → Option FileFault := fun _ => none
  /-- Why a write at a place fails, although nothing there forbids it. -/
  writeFault : List Text → Option WriteFault := fun _ => none
  /-- What the parser of settings remarks about a source. -/
  parserWarnings : Text → List Text := fun _ => []
  /-- The writes carried out so far, in order: the path and the content. -/
  written : List (Text × Text) := []
  /-- The lines printed so far, in order. -/
  printed : List (Channel × Text) := []
  /-- The remarks of the parser passed on so far, in order. -/
  warned : List Text := []

namespace World

/-- What there is at a place. -/
def entry? (w : World) (place : List Text) : Option FileEntry :=
  match w.entries.lookup place with
  | some e => some e
  | none =>
    if place.isPrefixOf w.directory || w.entries.any fun e => place.isPrefixOf e.1 then some .directory
    else none

/-- Follow components from a place. What stands before a component has to be a
directory. -/
def follow (w : World) (place : List Text) : List Text → Except FileFault (List Text)
  | [] => .ok place
  | c :: rest =>
    match w.entry? place with
    | none => .error .notFound
    | some (.file _) => .error .notDirectory
    | some .directory => w.follow (Path.step false place c) rest

/-- The place that a path leads to; there need not be anything. -/
def locate (w : World) (path : Text) : Except FileFault (List Text) :=
  if path.isEmpty then .error .notFound
  else w.follow (if Path.isAbsolute path then [] else w.directory) (Path.components path)

/-- Does the path ask for a directory by its last unit? -/
def endsInSlash (path : Text) : Bool :=
  path.getLast? == some Path.slash

/-- The content of the file at a path. -/
def read (w : World) (path : Text) : Except FileFault Text := do
  let place ← w.locate path
  match w.entry? place with
  | none => .error .notFound
  | some .directory => .error .readDirectory
  | some (.file content) =>
    if endsInSlash path then .error .notDirectory
    else
      match w.readFault place with
      | some f => .error f
      | none => .ok content

/-- Put an entry at a place. -/
def put (w : World) (place : List Text) (e : FileEntry) : World :=
  { w with entries := (place, e) :: w.entries.filter fun old => old.1 != place }

/-- Why no file can be written at the place that a path leads to. -/
def obstacle? (w : World) (path : Text) (place : List Text) : Option WriteFault :=
  match w.entry? place with
  | some .directory => some { fault := .writeDirectory }
  | some (.file _) =>
    if endsInSlash path then some { fault := .notDirectory } else w.writeFault place
  | none => if endsInSlash path then some { fault := .writeDirectory } else w.writeFault place

/-- Write a file to a path. A write that breaks off leaves behind what it leaves. -/
def write (w : World) (path content : Text) : Except FileFault Unit × World :=
  match w.locate path with
  | .error f => (.error f, w)
  | .ok place =>
    match w.obstacle? path place with
    | none =>
      (.ok (), { w.put place (.file content) with written := w.written ++ [(path, content)] })
    | some { fault, left := none } => (.error fault, w)
    | some { fault, left := some left } => (.error fault, w.put place (.file left))

/-- The world after a line was printed. -/
def print (w : World) (channel : Channel) (line : Text) : World :=
  { w with printed := w.printed ++ [(channel, line)] }

/-- The world after the parser's remarks about a source were passed on. -/
def warnAbout (w : World) (source : Text) : World :=
  { w with warned := w.warned ++ w.parserWarnings source }

end World

instance : Host (StateM World) where
  directory := do return (← get).directory
  readFile path := do return (← get).read path
  writeFile path content := modifyGet (·.write path content)
  print channel line := modify (·.print channel line)
  warnAbout source := modify (·.warnAbout source)

end MetadataBlock
