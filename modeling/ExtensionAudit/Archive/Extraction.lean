import ExtensionAudit.Archive.Member

/-!
Extracting an archive. What is to be done on the disk follows from the archive alone,
and is a list of actions: directories above a member, then the member. An action touches
only what is at or below the directory that the archive is extracted to. How many of the
directories above a member are missing is looked at before the first of them is made.
-/

namespace ExtensionAudit.Archive

/-- An action of an extraction; the names are those below the directory extracted to. -/
inductive Action
  | enter (levels : Nat) (place : List Text)
  | ensure (place : List Text)
  | makeDirectory (place : List Text)
  | write (place : List Text) (octets : Bytes)
  | stop (fault : Fault)
deriving DecidableEq

/-- The beginnings of a list, without the list itself. -/
def beginnings (list : List α) : List (List α) := (List.range list.length).map list.take

/-- The actions that put a file. -/
def fileActions (platform : Platform) (archive : Bytes) (e : Entry) : List Action :=
  match e.content platform archive with
  | .error fault => [.stop fault]
  | .ok content =>
    .write e.place content.octets ::
      match content.fault with
      | some fault => [.stop fault]
      | none => []

/-- The actions that make sure of everything above a place. -/
def aboveActions (levels : Nat) (place : List Text) : List Action :=
  match beginnings place with
  | [] => []
  | _ :: rest => .enter levels place :: rest.map .ensure

/-- The actions that put a member itself. -/
def ownActions (platform : Platform) (archive : Bytes) (e : Entry) : List Action :=
  if platform.refusesNameless && e.name == [] then [.stop .nameless]
  else if e.isDirectory then [.makeDirectory e.place]
  else fileActions platform archive e

/-- The actions that put a member: everything above it, then the member itself. -/
def memberActions (platform : Platform) (archive : Bytes) (e : Entry) : List Action :=
  aboveActions platform.making e.place ++ ownActions platform archive e

/-- The last of the entries with a name, which stands for all of them. -/
def lastNamed (entries : List Entry) (e : Entry) : Entry :=
  (entries.findRev? fun other => other.name == e.name).getD e

/-- The actions that extract an archive with these entries. -/
def actions (platform : Platform) (archive : Bytes)
    (entries : List Entry) : List Action :=
  entries.flatMap fun e => memberActions platform archive (lastNamed entries e)

/-- How many of the entries are files. -/
def fileCount (entries : List Entry) : Nat := entries.countP fun e => !e.isDirectory

/-- Makes a directory where nothing is. The way there leads through the directory that
it is made in, which is there for that reason. -/
def ensureDirectory (disk : Disk) (path : Path) : Except Fault Disk :=
  match disk.look path with
  | .error refusal => .error (.unwritable ⟨refusal, path.text⟩)
  | .ok (_, some _) => .ok disk
  | .ok (place, none) => .ok (disk.add place .directory)

/-- How many of the directories above a place are missing. -/
def missing (root : Path) (disk : Disk) (place : List Text) : Nat :=
  (beginnings place).countP fun above => !disk.isPresent (root.descend above)

/-- Carries out an action. -/
def Action.run (root : Path) (disk : Disk) : Action → Except Fault Disk
  | .enter levels place =>
    if levels < missing root disk place then .error .tooDeep
    else ensureDirectory disk root
  | .ensure place => ensureDirectory disk (root.descend place)
  | .makeDirectory place =>
    let path := root.descend place
    if disk.isDirectory path then .ok disk
    else (disk.makeDirectory path).mapError .unwritable
  | .write place octets => (disk.write (root.descend place) octets).mapError .unwritable
  | .stop fault => .error fault

/-- Carries out actions until one fails; what was done before stays done. -/
def runActions (root : Path) : List Action → Disk → Disk × Except Fault Unit
  | [], disk => (disk, .ok ())
  | action :: rest, disk =>
    match action.run root disk with
    | .error fault => (disk, .error fault)
    | .ok disk => runActions root rest disk

/-- The actions that extract an archive, whatever it is. -/
def planned (platform : Platform) (archive : Bytes) : List Action :=
  match entries archive with
  | .error fault => [.stop fault]
  | .ok entries => actions platform archive entries

/-- How many files an archive has. -/
def countFiles (archive : Bytes) : Nat :=
  match entries archive with
  | .error _ => 0
  | .ok entries => fileCount entries

/-- Extracts an archive to a directory, and counts its files. -/
def extract (platform : Platform) (root : Path) (archive : Bytes) (disk : Disk) :
    Disk × Except Fault Nat :=
  let (disk, outcome) := runActions root (planned platform archive) disk
  (disk, outcome.map fun _ => countFiles archive)

end ExtensionAudit.Archive
