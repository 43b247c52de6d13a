import ExtensionAudit.Disk.Basic
import ExtensionAudit.Entries
import ExtensionAudit.Platform
import ExtensionAudit.Text.Lines

/-!
The scripts of an extension: the files below a directory whose names end in a given way,
by their paths from there, in the order of the paths. They are searched for in all
directories first, and read then.
-/

namespace ExtensionAudit.Script

/-- The ending of a script's name. -/
def ending : Text := ".js"

/-- Why scripts cannot be read: one of them cannot, or a directory is too deep to be
searched. -/
inductive Fault
  | unreadable (name : Text) (fault : SystemFault)
  | tooDeep
deriving DecidableEq

/-- The text of a file. What is not text in it is replaced, and every line ends in a
line feed. -/
def textOf (bytes : Bytes) : Text := Text.universalNewlines (Utf8.decodeLossy bytes)

/-- Does the last of the names end so? -/
def isNamed (suffix : Text) (names : List Text) : Bool :=
  match names.getLast? with
  | some name => Text.endsWith suffix name
  | none => false

/-- The files below a directory with an ending, by the names that lead to them. -/
def listing (suffix : Text) (disk : Disk) (directory : Path) : List (List Text) :=
  ((disk.filesBelow directory).map (·.1)).filter (isNamed suffix)

/-- Searches a directory for files with an ending, no more than so many levels down. -/
def search (levels : Nat) (suffix : Text) (disk : Disk) (directory : Path) :
    Except Fault (List (List Text)) :=
  if disk.isDeeper levels directory then .error .tooDeep
  else .ok (listing suffix disk directory)

/-- The path of a file from the directory on. -/
def pathText (names : List Text) : Text := Text.join "/" names

/-- Reads a file that was listed. -/
def read (disk : Disk) (directory : Path) (names : List Text) : Except Fault Text :=
  match disk.read (directory.descend names) with
  | .ok bytes => .ok (textOf bytes)
  | .error fault => .error (.unreadable (pathText names) fault)

/-- Reads the files that were listed, one after another. -/
def readAll (disk : Disk) (directory : Path) : List (List Text) →
    Except Fault (Entries Text)
  | [] => .ok []
  | names :: rest => do
    let text ← read disk directory names
    .ok ((pathText names, text) :: (← readAll disk directory rest))

/-- The files below a directory with an ending. -/
def files (levels : Nat) (suffix : Text) (disk : Disk) (directory : Path) :
    Except Fault (Entries Text) := do
  readAll disk directory (← search levels suffix disk directory)

/-- What is said of scripts that cannot be read. -/
def Fault.message : Fault → Text
  | .unreadable name fault => "Failed to read " ++ name ++ ": " ++ fault.message
  | .tooDeep => Platform.depthMessage

end ExtensionAudit.Script
