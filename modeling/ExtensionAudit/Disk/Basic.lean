import ExtensionAudit.Disk.Path
import ExtensionAudit.Text.Quoted
import ExtensionAudit.Text.Utf8

/-!
The file system an audit works on: directories and files, by the names that lead to them
from the working directory. Two dots lead up, and what is further up is taken to consist
of directories; a slash for a first name leads to the root. An operation that fails says
why, with the path it was given, and leaves everything as it was.
-/

namespace ExtensionAudit

/-- Why the system refuses an operation. -/
inductive Refusal
  | missing
  | argumentsTooLong
  | notExecutable
  | notPermitted
  | present
  | notDirectory
  | isDirectory
  | nameTooLong
deriving DecidableEq

/-- The number of a refusal. -/
def Refusal.number : Refusal → Nat
  | .missing => 2
  | .argumentsTooLong => 7
  | .notExecutable => 8
  | .notPermitted => 13
  | .present => 17
  | .notDirectory => 20
  | .isDirectory => 21
  | .nameTooLong => 36

/-- What the system calls a refusal. -/
def Refusal.description : Refusal → Text
  | .missing => "No such file or directory"
  | .argumentsTooLong => "Argument list too long"
  | .notExecutable => "Exec format error"
  | .notPermitted => "Permission denied"
  | .present => "File exists"
  | .notDirectory => "Not a directory"
  | .isDirectory => "Is a directory"
  | .nameTooLong => "File name too long"

/-- A refused operation and the name it was given. -/
structure SystemFault where
  refusal : Refusal
  name : Text
deriving DecidableEq

/-- What the system says of a refused operation. -/
def SystemFault.message (fault : SystemFault) : Text :=
  "[Errno " ++ Text.ofNat fault.refusal.number ++ "] " ++
    fault.refusal.description ++ ": " ++
  Text.quoted fault.name

/-- What a path can name. -/
inductive Node
  | directory
  | file (content : Bytes)
deriving DecidableEq

/-- Is the node a file? -/
def Node.isFile : Node → Bool
  | .file _ => true
  | .directory => false

/-- What is on the disk, by the names on the way there. -/
structure Disk where
  nodes : List (List Text × Node)
deriving DecidableEq

namespace Disk

/-- A disk with nothing on it. -/
def empty : Disk := ⟨[]⟩

/-- Are two names the same? If they are one in memory, they are not compared letter by
letter. -/
def sameName (a b : Text) : Bool :=
  withPtrEq a b (fun _ => a == b) fun h => beq_iff_eq.mpr h

/-- Are names the same, one by one? -/
def sameNames : List Text → List Text → Bool
  | [], [] => true
  | a :: first, b :: second => sameName a b && sameNames first second
  | _, _ => false

/-- Looks names up in a list of nodes. -/
def find (names : List Text) : List (List Text × Node) → Option Node
  | [] => none
  | (key, node) :: rest => if sameNames key names then some node else find names rest

/-- The name of the directory above. -/
def above : Text := ".."

/-- Do the names lead to the working directory or to one further up? -/
def isUpward (names : List Text) : Bool := names.all (· == above)

/-- The names that lead to the root. -/
def root : List Text := ["/"]

/-- What the names lead to. -/
def node? (disk : Disk) (names : List Text) : Option Node :=
  if isUpward names || names == root then some .directory else find names disk.nodes

/-- The names that lead to the directory above, which the root is to itself. -/
def up (names : List Text) : List Text :=
  if isUpward names then names ++ [above] else if names ==
    root then root else names.dropLast

/-- Puts a node in a list, in the place of one that is there. -/
def insert (names : List Text) (node : Node) : List (List Text × Node) →
    List (List Text × Node)
  | [] => [(names, node)]
  | (key, old) :: rest =>
    if sameNames key names then (key, node) :: rest
    else (key, old) :: insert names node rest

/-- Puts a node on the disk. -/
def put (disk : Disk) (names : List Text) (node : Node) : Disk :=
  ⟨insert names node disk.nodes⟩

/-- Puts a node on the disk where none is. -/
def add (disk : Disk) (names : List Text) (node : Node) : Disk :=
  ⟨disk.nodes ++ [(names, node)]⟩

/-- Removes what the names lead to, with everything below it. -/
def remove (disk : Disk) (names : List Text) : Disk :=
  ⟨disk.nodes.filter fun (key, _) => !names.isPrefixOf key⟩

/-- The longest name a directory can hold, in octets. -/
def nameLimit : Nat := 255

/-- The longest path that can be asked for, in octets. -/
def pathLimit : Nat := 4095

/-- Goes down the names from a place, through directories only. Two dots go back up. -/
def walk (disk : Disk) (place : List Text) : List Text → Except Refusal (List Text)
  | [] => .ok place
  | name :: rest =>
    match disk.node? place with
    | none => .error .missing
    | some (.file _) => .error .notDirectory
    | some .directory =>
      if nameLimit < (Utf8.encode name).length then .error .nameTooLong
      else if name == above then walk disk (up place) rest
      else walk disk (place ++ [name]) rest

/-- The place on the disk that a path leads to, whether or not anything is there. -/
def locate (disk : Disk) (path : Path) : Except Refusal (List Text) :=
  if pathLimit < (Utf8.encode path.text).length then .error .nameTooLong
  else walk disk (if path.root == [] then [] else root) path.names

/-- How many names there are in a list that is the beginning of another one, and so many
more. -/
def beginning? (count : Nat) : List Text → List Text → Option Nat
  | [], _ => some count
  | a :: key, b :: names =>
    if sameName a b then beginning? (count + 1) key names else none
  | _ :: _, [] => none

/-- What the beginnings of the names lead to, each at the number of its names. -/
def along (names : List Text) : List (List Text × Node) → Array (Option Node)
  | [] => Array.replicate (names.length + 1) none
  | (key, node) :: rest =>
    match beginning? 0 key names with
    | some count => (along names rest).setIfInBounds count (some node)
    | none => along names rest

/-- What so many names lead to, where the first few lead to a directory that is always
there and the nodes along the names are known. -/
def nodeAlong (fixed : Nat) (nodes : Array (Option Node)) (count : Nat) : Option Node :=
  if count ≤ fixed then some .directory else nodes.getD count none

/-- Goes down the names through directories only, when so many names are behind. -/
def pass (nodeAt : Nat → Option Node) (count : Nat) : List Text → Except Refusal Unit
  | [] => .ok ()
  | name :: rest =>
    match nodeAt count with
    | none => .error .missing
    | some (.file _) => .error .notDirectory
    | some .directory =>
      if nameLimit < (Utf8.encode name).length then .error .nameTooLong
      else pass nodeAt (count + 1) rest

/-- Does the name lead down from every directory? -/
def leadsDown (name : Text) : Bool := name != above && name != "/"

/-- The place on the disk that a path leads to, and what is there. On a way that only
leads down every node is looked at once. -/
def look (disk : Disk) (path : Path) : Except Refusal (List Text × Option Node) :=
  let start := if path.root == [] then [] else root
  if pathLimit < (Utf8.encode path.text).length then .error .nameTooLong
  else if path.names.all leadsDown then
    let place := start ++ path.names
    let nodeAt := nodeAlong start.length (along place disk.nodes)
    (pass nodeAt start.length path.names).map fun _ => (place, nodeAt place.length)
  else (disk.walk start path.names).map fun place => (place, disk.node? place)

/-- What a path names. -/
def status (disk : Disk) (path : Path) : Except Refusal Node := do
  let (_, node) ← disk.look path
  match node with
  | some node => .ok node
  | none => .error .missing

/-- Does the path name anything? -/
def isPresent (disk : Disk) (path : Path) : Bool :=
  match disk.status path with
  | .ok _ => true
  | .error _ => false

/-- Does the path name a directory? -/
def isDirectory (disk : Disk) (path : Path) : Bool :=
  match disk.status path with
  | .ok .directory => true
  | _ => false

/-- Says of a refusal which path it was about. -/
def about (path : Path) (result : Except Refusal α) : Except SystemFault α :=
  result.mapError fun refusal => ⟨refusal, path.text⟩

/-- The content of a file. -/
def read (disk : Disk) (path : Path) : Except SystemFault Bytes :=
  about path do
    match ← disk.status path with
    | .file content => .ok content
    | .directory => .error .isDirectory

/-- Is there a directory to put something into at this place? -/
def checkParent (disk : Disk) (place : List Text) : Except Refusal Unit :=
  match disk.node? place.dropLast with
  | some .directory => .ok ()
  | some (.file _) => .error .notDirectory
  | none => .error .missing

/-- Writes a file, in the place of one that is there. -/
def write (disk : Disk) (path : Path) (content : Bytes) : Except SystemFault Disk :=
  about path do
    let place ← disk.locate path
    match disk.node? place with
    | some .directory => .error .isDirectory
    | some (.file _) => .ok (disk.put place (.file content))
    | none => do
      disk.checkParent place
      .ok (disk.put place (.file content))

/-- Makes a directory where nothing is. -/
def makeDirectory (disk : Disk) (path : Path) : Except SystemFault Disk :=
  about path do
    let place ← disk.locate path
    match disk.node? place with
    | some _ => .error .present
    | none => do
      disk.checkParent place
      .ok (disk.put place .directory)

/-- The files below a directory, by the names that lead there from it, in the order of
the names. -/
def filesBelow (disk : Disk) (path : Path) : List (List Text × Bytes) :=
  match disk.locate path with
  | .error _ => []
  | .ok place =>
    let found := disk.nodes.filterMap fun (key, node) =>
      match node with
      | .file content =>
        if place.isPrefixOf key && key !=
          place then some (key.drop place.length, content) else none
      | .directory => none
    found.mergeSort fun a b => !Path.namesBefore b.1 a.1

/-- Is there a directory more than so many levels below the one that a path leads to? -/
def isDeeper (levels : Nat) (disk : Disk) (path : Path) : Bool :=
  match disk.locate path with
  | .error _ => false
  | .ok place => disk.nodes.any fun (key, node) =>
    node == .directory && place.isPrefixOf key && place.length + levels < key.length

end Disk

end ExtensionAudit
