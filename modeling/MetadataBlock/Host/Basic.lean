import MetadataBlock.Host.Path

/-!
# What a run needs from its surroundings

A run reads and writes files, prints lines, and passes on what a parser remarks about
its settings; nothing else that it does can be seen from outside. `Host m` says that the
effects `m` provide this.
-/

namespace MetadataBlock

/-- Where a line is printed. -/
inductive Channel where
  | out
  | err
  deriving DecidableEq, Repr

/-- Why a file cannot be read or written. -/
inductive FileFault where
  | notFound
  | notDirectory
  | readDirectory
  | writeDirectory
  | other (reason : Text)
  deriving DecidableEq

/-- The message of a fault with a path. -/
def FileFault.message (path : Text) : FileFault → Text
  | notFound => "ENOENT: no such file or directory, open " ++ Text.quoted path
  | notDirectory => "ENOTDIR: not a directory, open " ++ Text.quoted path
  | readDirectory => "EISDIR: illegal operation on a directory, read"
  | writeDirectory => "EISDIR: illegal operation on a directory, open " ++ Text.quoted path
  | other reason => reason

/-- Effects that read and write files and print. -/
class Host (m : Type → Type) where
  /-- The components of the directory in which paths begin. -/
  directory : m (List Text)
  readFile : Text → m (Except FileFault Text)
  /-- Replace the content of a file, or create it. -/
  writeFile : Text → Text → m (Except FileFault Unit)
  /-- Print a line. -/
  print : Channel → Text → m Unit
  /-- Pass on what the parser of settings remarks about a source. The surroundings show
  it in their own way, apart from the lines printed. -/
  warnAbout : Text → m Unit

/-- What a run needs is still there if the run may end early. -/
instance {ε : Type} {m : Type → Type} [Monad m] [Host m] : Host (ExceptT ε m) where
  directory := ExceptT.lift Host.directory
  readFile path := ExceptT.lift (Host.readFile path)
  writeFile path content := ExceptT.lift (Host.writeFile path content)
  print channel line := ExceptT.lift (Host.print channel line)
  warnAbout source := ExceptT.lift (Host.warnAbout source)

/-- Print lines one by one. -/
def printLines {m : Type → Type} [Monad m] [Host m] (channel : Channel) : List Text → m Unit
  | [] => pure ()
  | line :: rest => do
    Host.print channel line
    printLines channel rest

end MetadataBlock
