import ExtensionAudit.Archive.Extraction
import ExtensionAudit.Auditor
import ExtensionAudit.Disk.Chore
import ExtensionAudit.Identifier
import ExtensionAudit.Request.Analysis
import ExtensionAudit.Request.Stage

/-!
A request on its way to a report: the identifier is resolved, the package fetched and
opened, its archive extracted, the manifest and the scripts read back, the analyses run,
and the report put together. Whatever happens, the extraction directory is removed in
the end, chore by chore; it is noted that it was cleaned up, unless it was too deep for
that.

A request goes step by step, so that several can share a disk. Extraction is the work of
a worker of its own, which goes on when the request is cancelled, also beside the
cleaning up.
-/

namespace ExtensionAudit

/-- What the world does for a request: how the store replies, and what the tools'
processes do. -/
structure World where
  reply : Fetch.Reply
  behavior : Tool → Tool.Behavior

/-- What a request has to do next. Cleaning up is about what the request has come to,
which is its outcome when it ends; but if the directory is too deep, the cleaning up is
overrun. -/
inductive Phase
  | resolve (target : Json)
  | fetch (identifier : Text)
  | parse (package : Bytes)
  | extract
  | readManifest
  | list (manifest : List (Text × Json))
  | read (manifest : List (Text × Json)) (pending : List (List Text))
      (files : Entries Text)
  | analyze (work : Workload)
  | cleanUp (outcome : Except Fault Report) (chores : Option (List Chore))
  | ended (outcome : Except Fault Report)
  | overrun (outcome : Except Fault Report)

/-- The worker that extracts: what it still has to do, and why it stopped if it did. -/
structure Worker where
  pending : List Archive.Action
  fault : Option Archive.Fault
deriving DecidableEq

/-- A request. -/
structure Request where
  directory : Path
  record : Record Fault
  phase : Phase
  worker : Worker
  exchange : Option Fetch.Exchange
  analysis : Option Analysis

namespace Request

/-- A request for an extension that has to be fetched. -/
def ofTarget (directory : Path) (target : Json) : Request :=
  ⟨directory, .fresh, .resolve target, ⟨[], none⟩, none, none⟩

/-- A request for a package that is at hand. -/
def ofPackage (directory : Path) (package : Bytes) : Request :=
  ⟨directory, .advance .fetched .fresh, .parse package, ⟨[], none⟩, none, none⟩

/-- Enters a stage and goes on to a phase. -/
def enter (request : Request) (stage : Stage) (phase : Phase) : Request :=
  { request with record := request.record.advance stage, phase := phase }

/-- Goes on to a phase. -/
def goOn (request : Request) (phase : Phase) : Request := { request with phase := phase }

/-- Fails, and goes on to the cleaning up. -/
def fail (request : Request) (fault : Fault) : Request :=
  { request with
    record := request.record.fail fault, phase := .cleanUp (.error fault) none }

/-- Goes on with a result, or fails. -/
def attempt (request : Request) (result : Except Fault α)
    (next : α → Request) : Request :=
  match result with
  | .ok a => next a
  | .error fault => request.fail fault

/-- Lets the worker do one action. -/
def work (request : Request) (disk : Disk) : Request × Disk :=
  match request.worker.pending with
  | [] => (request, disk)
  | action :: rest =>
    match action.run request.directory disk with
    | .ok disk => ({ request with worker := ⟨rest, none⟩ }, disk)
    | .error fault => ({ request with worker := ⟨[], some fault⟩ }, disk)

/-- The report on what the four analyses came to. -/
def report (manifest : List (Text × Json)) : List Part → Except Fault Report
  | [.scores scores, .usage usage, .findings entries, .lint lint] =>
    (do
      let libraries ← Score.libraries (.array entries)
      Report.ofParts (.object manifest) scores libraries usage lint).mapError .misuse
  | _ => .error .cancelled

/-- What the analyses came to, once all four are settled. -/
def settlement? (request : Request) : Option (Except Fault (List Part)) :=
  request.analysis.bind Analysis.outcome?

/-- Takes the outcome of the analyses; without one, the request waits. -/
def conclude (request : Request) (work : Workload) : Request :=
  match request.settlement? with
  | none => request
  | some (.error fault) => request.fail fault
  | some (.ok parts) =>
    request.attempt (report work.manifest parts) fun report =>
      request.enter .analyzed (.cleanUp (.ok report) none)

/-- What is to be analysed once the files are read. -/
def workload (auditor : Auditor) (request : Request) (manifest : List (Text × Json))
    (files : Entries Text) : Workload :=
  ⟨manifest, files,
    if auditor.usesTools then some (auditor.terms request.directory) else none⟩

/-- The next step of the cleaning up. It looks whether the directory is there, does one
chore after the other, and is noted when none is left. -/
def clean (levels : Nat) (request : Request) (disk : Disk)
    (outcome : Except Fault Report) :
    Option (List Chore) → Request × Disk
  | none =>
    (request.goOn (.cleanUp outcome (some (Chore.start levels disk request.directory))),
      disk)
  | some [] =>
    ({ request with record := request.record.cleanedUp, phase := .ended outcome }, disk)
  | some (chore :: rest) =>
    match chore.run disk with
    | some (more, disk) => (request.goOn (.cleanUp outcome (some (more ++ rest))), disk)
    | none => (request.goOn (.overrun outcome), disk)

/-- The next step of a request by itself, with the store's reply if it asks for one.
Only the worker and the cleaning up change the disk. -/
def step (auditor : Auditor) (reply : Fetch.Reply) (request : Request) (disk : Disk) :
    Request × Disk :=
  match request.phase with
  | .resolve target =>
    match Identifier.ofJson? target with
    | none => (request.fail .target, disk)
    | some id =>
      ({ request with record := { request.record with identifier := some id } }.enter
        .resolved (.fetch id), disk)
  | .fetch id =>
    let exchange := Fetch.fetch auditor.fetching reply id
    let request := { request with exchange := some exchange }
    (request.attempt (exchange.outcome.mapError .fetch) fun package =>
      request.enter .fetched (.parse package), disk)
  | .parse package =>
    (request.attempt ((Package.payload package).mapError .package) fun archive =>
      { request with worker := ⟨Archive.planned auditor.platform archive, none⟩ }.enter
        .parsed .extract, disk)
  | .extract =>
    match request.worker.pending, request.worker.fault with
    | [], none => (request.goOn .readManifest, disk)
    | [], some fault => (request.fail (.archive fault), disk)
    | _ :: _, _ => request.work disk
  | .readManifest =>
    (request.attempt ((Manifest.read disk request.directory).mapError .manifest)
      fun manifest =>
      request.goOn (.list manifest), disk)
  | .list manifest =>
    (request.attempt
      ((Script.search auditor.platform.listing Script.ending disk
        request.directory).mapError .script)
      fun pending => request.goOn (.read manifest pending []), disk)
  | .read manifest [] files =>
    let work := workload auditor request manifest files
    ({ request with
      analysis := some (.start work) }.enter .extracted (.analyze work), disk)
  | .read manifest (names :: rest) files =>
    (request.attempt ((Script.read disk request.directory names).mapError .script)
      fun text =>
      request.goOn (.read manifest rest (files ++ [(Script.pathText names, text)])), disk)
  | .analyze work => (request.conclude work, disk)
  | .cleanUp outcome chores => request.clean auditor.platform.removing disk outcome chores
  | .ended _ | .overrun _ => (request, disk)

/-- Takes note of what happens to the analyses, if they are under way. -/
def notice (request : Request) (event : Analysis.Event) : Request :=
  match request.phase with
  | .analyze work =>
    { request with analysis := request.analysis.map (Analysis.step work · event) }
  | _ => request

/-- Cancels a request where it waits for something. The analyses are cancelled first;
everything else is given up at once. -/
def cancel (request : Request) : Request :=
  match request.phase with
  | .fetch _ | .extract | .list _ | .read .. => request.fail .cancelled
  | _ => request.notice .aborted

/-- How many phases are still to come. -/
def rank : Phase → Nat
  | .resolve _ => 9
  | .fetch _ => 8
  | .parse _ => 7
  | .extract => 6
  | .readManifest => 5
  | .list _ => 4
  | .read .. => 3
  | .analyze .. => 2
  | .cleanUp .. => 1
  | .ended _ | .overrun _ => 0

/-- How many steps the phase still takes at the most, so many levels down. -/
def remaining (levels : Nat) (request : Request) (disk : Disk) : Nat :=
  match request.phase with
  | .extract => request.worker.pending.length
  | .read _ pending _ => pending.length
  | .cleanUp _ chores => Chore.left levels disk request.directory chores
  | _ => 0

end Request

end ExtensionAudit
