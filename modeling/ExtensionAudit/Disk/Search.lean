import ExtensionAudit.Disk.Basic
import ExtensionAudit.Text.Wildcard

/-!
Searching a disk by a pattern for paths. The parts of a pattern are names, patterns for
names, and two asterisks for any directory at any depth. Names that are spelt out are
looked up as they are, so two dots among them lead up.
-/

namespace ExtensionAudit.Search

/-- A part of a pattern for paths. -/
inductive Part
  | anywhere
  | like (pieces : List Wildcard.Piece)
  | named (name : Text)
deriving DecidableEq

/-- A pattern for paths; one that ends in a slash is for directories. -/
structure Course where
  parts : List Part
  isForDirectories : Bool
deriving DecidableEq

/-- Why a search fails. -/
inductive Fault
  | depth
  | system (fault : SystemFault)
deriving DecidableEq

/-- The part that stands for any directory at any depth. -/
def anywhereSign : Text := "**"

/-- Reads a part. Two asterisks are not a piece of one. -/
def Part.ofText (t : Text) : Except Fault Part :=
  if t == anywhereSign then .ok .anywhere
  else if Text.contains anywhereSign t then .error .depth
  else if t.any Wildcard.isSign then .ok (.like (Wildcard.pieces t))
  else .ok (.named t)

/-- Reads a pattern. -/
def Course.ofText (t : Text) : Except Fault Course := do
  .ok ⟨← (Path.ofText t).names.mapM Part.ofText, Text.endsWith "/" t⟩

/-- What comes of one search after another. -/
def collect (find : α → Except Fault (List β)) : List α → Except Fault (List β)
  | [] => .ok []
  | a :: rest => do .ok ((← find a) ++ (← collect find rest))

/-- What is in a directory, by name. -/
def children (disk : Disk) (path : Path) : List (Text × Node) :=
  match disk.locate path with
  | .error _ => []
  | .ok place => disk.nodes.filterMap fun (key, node) =>
    match key.getLast? with
    | some name => if key == place ++ [name] then some (name, node) else none
    | none => none

/-- A directory and those below it, at most `depth` further down, by the names that lead
there. -/
def directories (disk : Disk) (start : Path) : Nat → List Text → List (List Text)
  | 0, names => [names]
  | depth + 1, names =>
    names :: (children disk (start.descend names)).flatMap fun (name, node) =>
      if node == .directory then directories disk start depth (names ++ [name]) else []

/-- Is there anything by the names, or a directory if it has to be one? -/
def isThere (disk : Disk) (path : Path) (isEntered : Bool) : Except Fault Bool :=
  match disk.status path with
  | .ok node => .ok (!isEntered || node == .directory)
  | .error refusal =>
    if refusal == .nameTooLong then .error (.system ⟨refusal, path.text⟩) else .ok false

/-- Follows the parts of a pattern from the names that lead to a directory. -/
def follow (disk : Disk) (start : Path) (isForDirectories : Bool) :
    List Part → List Text → Except Fault (List (List Text))
  | [], names => .ok [names]
  | part :: rest, names =>
    let isEntered := isForDirectories || rest != []
    match part with
    | .anywhere =>
      collect (follow disk start isForDirectories rest)
        (directories disk start disk.nodes.length names)
    | .like pieces =>
      collect (fun entry => follow disk start isForDirectories rest (names ++ [entry.1]))
        ((children disk (start.descend names)).filter fun (name, node) =>
          (!isEntered || node == .directory) && Wildcard.fits pieces name)
    | .named name => do
      if ← isThere disk (start.descend (names ++ [name])) isEntered then
        follow disk start isForDirectories rest (names ++ [name])
      else .ok []

/-- Is the path that of a file? -/
def isFile (disk : Disk) (path : Path) : Bool :=
  match disk.status path with
  | .ok node => node.isFile
  | .error _ => false

/-- The files at any depth below a directory that a pattern is for, in the order of
their names. -/
def files (pattern : Text) (disk : Disk)
    (start : Path) : Except Fault (List (List Text)) := do
  let course ← Course.ofText pattern
  if !disk.isDirectory start then .ok []
  else
    let found ← follow disk start course.isForDirectories (.anywhere :: course.parts) []
    let files := found.eraseDups.filter fun names => isFile disk (start.descend names)
    .ok (files.mergeSort fun a b => !Path.namesBefore b a)

/-- What is said of a search that fails. -/
def Fault.message : Fault → Text
  | .depth => "Invalid pattern: '**' can only be an entire path component"
  | .system fault => fault.message

end ExtensionAudit.Search
