import MetadataBlock.Command.Line
import MetadataBlock.Text.Utf8

/-!
# The program

The command line in a real file system and on real output channels. Nothing is
decided here.
-/

namespace MetadataBlock

/-- Is the fault of the file system that something is a directory? -/
def isDirectoryCode (code : UInt32) : Bool :=
  code == 21

/-- The fault behind an error of the file system; `directory` is the fault of the
operation on a directory. -/
def FileFault.ofError (directory : FileFault) : IO.Error → FileFault
  | .noFileOrDirectory .. => .notFound
  | .inappropriateType _ code _ => if isDirectoryCode code then directory else .notDirectory
  | e => .other (Text.ofString e.toString)

instance : Host IO where
  directory := do
    let here ← IO.currentDir
    return Path.components (Text.ofString here.toString)
  readFile path := do
    try
      let bytes ← IO.FS.readBinFile (Text.toString path)
      return .ok (Text.ofUtf8 bytes.toList)
    catch e => return .error (.ofError .readDirectory e)
  writeFile path content := do
    try
      IO.FS.writeBinFile (Text.toString path) (Text.toUtf8 content)
      return .ok ()
    catch e => return .error (.ofError .writeDirectory e)
  print
    | .out, line => IO.println (Text.toString line)
    | .err, line => IO.eprintln (Text.toString line)
  -- the parser at hand makes no remarks
  warnAbout _ := pure ()

end MetadataBlock

/-- Answer the command line; output is coloured if `FORCE_COLOR` asks for it. -/
def main (args : List String) : IO UInt32 := do
  let wish ← IO.getEnv "FORCE_COLOR"
  let color := match wish with
    | none | some "0" | some "false" => false
    | some _ => true
  let code ← MetadataBlock.CommandLine.run color (args.map MetadataBlock.Text.ofString)
  return UInt32.ofNat ((code.toNat?).getD 1)
