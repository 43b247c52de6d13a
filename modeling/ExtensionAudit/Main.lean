import ExtensionAudit.Command.Run

/-!
The command as a program. The files that the command line and the settings name are put
on a disk, the command runs on it, and what it printed and saved is brought out. Without
a connection to the store and without tools at hand, an audit is one of a package at
hand, with the switch that runs no tools.
-/

namespace ExtensionAudit.Command

/-- The text as a string; a surrogate that stands alone has no place in one. -/
def string (t : Text) : String := String.ofList (t.map fun c => Char.ofNat c.val)

/-- Puts on the disk what a path names. -/
def bring (path : Path) (disk : Disk) : IO Disk := do
  let place := (← IO.currentDir) / string path.text
  if ← place.isDir then return (disk.makeDirectories path).1
  if !(← place.pathExists) then return disk
  let content ← IO.FS.readBinFile place
  let disk := (disk.makeDirectories path.parent).1
  match disk.write path content.toList with
  | .ok disk => return disk
  | .error _ => return disk

/-- The variables of the environment that are meant for the audit. -/
def readEnvironment : IO (Entries Text) := do
  let names := Settings.pathVariable :: Setting.all.map Setting.environmentName
  names.filterMapM fun name => do
    let value ← IO.getEnv (string name)
    return value.map fun value => (name, Text.ofString value)

/-- The paths that a run may read or write. -/
def paths (arguments : Arguments) (environment : Entries Text) : List Path :=
  [Settings.configPath (configChoice arguments.config) environment] ++
  arguments.crx.toOption.toList ++ arguments.output.toOption.toList

/-- Writes a file where the run changed it. -/
def carryOut (path : Path) (before after : Disk) : IO Unit := do
  match after.read path with
  | .ok content =>
    if (before.read path).toOption != some content then
      let directory ← IO.currentDir
      IO.FS.createDirAll (directory / string path.parent.text)
      IO.FS.writeBinFile (directory / string path.text) (ByteArray.mk content.toArray)
  | .error _ => return

/-- A world without a store and without tools. -/
def secludedWorld : World where
  reply := .failure "no network"
  behavior _ := ⟨some .missing, .prompt, ⟨false, false⟩, ⟨0, [], []⟩⟩

/-- The directory for extraction. It is only on the disk of the run, and no path that
can be asked for leads there, because its name has a slash in it. -/
def extractionDirectory : Path := Path.ofNames ["/extension"]

/-- The lint rules by their path. -/
def rulesPath : Text := "eslint.config.mjs"

/-- Standard output shows what UTF-8 has octets for. -/
def stdout : Stream := fun line => do
  let _ ← (Utf8.encodeStrict line).mapError Utf8.EncodingFault.message
  .ok line

/-- Standard error shows the number of a surrogate in its place. -/
def stderr : Stream := fun line =>
  .ok (line.flatMap fun c => if c.isSurrogate then "\\u" ++ Text.hex 4 c.val else [c])

/-- Help as a list. -/
def layout (help : Help) : Text :=
  Text.join "\n" (help.description :: help.items.map (fun (names, explanation) =>
    "  " ++ names ++ "  " ++ explanation) ++ [help.epilog])

/-- Runs the command. -/
def execute (texts : List Text) : IO UInt32 := do
  let environment ← readEnvironment
  let paths := match Order.ofTexts texts with
    | .ok (.audit arguments) => paths arguments environment
    | _ => []
  let disk ← paths.foldlM (fun disk path => bring path disk) Disk.empty
  let outcome := run {
    stdout, stderr, layout, disk, environment
    platform := .plain
    directory := extractionDirectory
    rules := rulesPath
    world := secludedWorld } texts
  outcome.printed.forM fun line => IO.println (string line)
  outcome.complaints.forM fun line => IO.eprintln (string line)
  paths.forM fun path => carryOut path disk outcome.disk
  match outcome.ending with
  | .exit code => return code.toUInt32
  | .failure failure =>
    IO.eprintln (string failure.message)
    return 1

end ExtensionAudit.Command

/-- Runs the command with the words after its name. -/
def main (words : List String) : IO UInt32 :=
  ExtensionAudit.Command.execute (words.map ExtensionAudit.Text.ofString)
