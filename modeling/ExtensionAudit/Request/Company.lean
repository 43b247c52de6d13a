import ExtensionAudit.Request.Course

/-!
Several requests of one auditor on one disk. Each has an extraction directory of its
own, which it makes first, and between two turns of one request any turns of the others
can come. A tool reads what is in the directory of its request, and changes nothing that
is not below it.
-/

namespace ExtensionAudit

namespace Disk

/-- The names that lead from a place to one at it or below it. -/
def rest? (place key : List Text) : Option (List Text) :=
  if place.isPrefixOf key then some (key.drop place.length) else none

/-- What is at a place and below it, by the names that lead there from the place. -/
def contents (disk : Disk) (place : List Text) : List (List Text × Node) :=
  disk.nodes.filterMap fun (key, node) => (rest? place key).map fun names => (names, node)

/-- Puts other things below a place, by the names that lead down to them; what is at the
place itself stays. -/
def refill (disk : Disk) (place : List Text) (below : List (List Text × Node)) : Disk :=
  let kept := disk.nodes.filter fun (key, _) => !(place.isPrefixOf key && key != place)
  let new := below.filter fun (names, _) => names != [] && !names.contains above
  ⟨kept ++ new.map fun (names, node) => (place ++ names, node)⟩

end Disk

/-- What the process of a tool does at some moment. From its directory and what is there
follows what it leaves below it, and what happens to its run, if anything does. -/
abbrev Tool.Deed := Path → List (List Text × Node) →
    List (List Text × Node) × Option Tool.Event

/-- A request to come: what it is for, and the directory that will be made for it. -/
structure Visit where
  origin : Request.Origin
  directory : Path

/-- A turn of a request among others: it makes its directory, goes on by itself, or one
of its tools does. -/
inductive Visit.Turn
  | opening
  | own (turn : Request.Turn)
  | tool (tool : Tool) (deed : Tool.Deed)

namespace Request

/-- What a tool does while the analyses are under way. -/
def perform (request : Request) (disk : Disk) (tool : Tool)
    (deed : Tool.Deed) : Request × Disk :=
  match request.phase, disk.locate request.directory with
  | .analyze _, .ok place =>
    let (below, event) := deed request.directory (disk.contents place)
    let request := match event with
      | some event => request.notice (.tool tool event)
      | none => request
    (request, disk.refill place below)
  | _, _ => (request, disk)

/-- Takes a turn among others. -/
def takeAmong (auditor : Auditor) (request : Request)
    (disk : Disk) : Visit.Turn → Request × Disk
  | .opening => (request, disk)
  | .own turn => request.take auditor disk turn
  | .tool tool deed => request.perform disk tool deed

end Request

namespace Visit

/-- Makes the directory; the request is there once that is done. -/
def enter (visit : Visit) (disk : Disk) : Option Request × Disk :=
  match disk.makeDirectory visit.directory with
  | .ok disk => (some (visit.origin.request visit.directory), disk)
  | .error _ => (none, disk)

/-- Takes a turn. -/
def take (auditor : Auditor) (visit : Visit) (state : Option Request × Disk)
    (turn : Turn) :
    Option Request × Disk :=
  match state, turn with
  | (none, disk), .opening => visit.enter disk
  | (none, disk), _ => (none, disk)
  | (some request, disk), turn => ((request.takeAmong auditor disk turn).map some id)

/-- Takes turns on a disk where nothing else happens. -/
def run (auditor : Auditor) (visit : Visit) (disk : Disk) (turns : List Turn) :
    Option Request × Disk :=
  turns.foldl (visit.take auditor) (none, disk)

end Visit

/-- Requests on one disk; some of them may still have to come. -/
structure Company (ι : Type) where
  requests : ι → Option Request
  disk : Disk

namespace Company

variable {ι : Type} [DecidableEq ι]

/-- Lets one of the requests take a turn. -/
def take (auditor : Auditor) (visits : ι → Visit) (company : Company ι)
    (turn : ι × Visit.Turn) : Company ι :=
  let next := (visits turn.1).take auditor (company.requests turn.1, company.disk) turn.2
  ⟨fun i => if i = turn.1 then next.1 else company.requests i, next.2⟩

/-- Lets the requests take turns, from a disk on where none of them has come yet. -/
def run (auditor : Auditor) (visits : ι → Visit) (disk : Disk)
    (turns : List (ι × Visit.Turn)) : Company ι :=
  turns.foldl (take auditor visits) ⟨fun _ => none, disk⟩

/-- The turns of one of the requests. -/
def turnsOf (i : ι) (turns : List (ι × Visit.Turn)) : List Visit.Turn :=
  turns.filterMap fun (j, turn) => if j = i then some turn else none

end Company

end ExtensionAudit
