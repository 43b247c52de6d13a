import ExtensionAudit.Request.Driving

/-!
The course of a request when anything may come in between: the store replies in any way,
the analyses go on in any order, something fails, the request is cancelled where it
waits, and its worker goes on by itself, also while the directory is cleaned up. Driving
a request is one of its courses.
-/

namespace ExtensionAudit

namespace Request

/-- A turn in the course of a request. -/
inductive Turn
  | step (reply : Fetch.Reply)
  | work
  | event (event : Analysis.Event)
  | failure (fault : Fault)
  | cancellation

/-- Fails in what the request is doing. The analyses fail one by one, so with them only
the report can fail, once they have come to something. -/
def breakOff (request : Request) (fault : Fault) : Request :=
  match request.phase with
  | .analyze _ =>
    match request.settlement? with
    | some (.ok _) => request.fail fault
    | _ => request
  | .cleanUp .. | .ended _ | .overrun _ => request
  | .extract => { request with worker := ⟨[], none⟩ }.fail fault
  | _ => request.fail fault

/-- Takes a turn. -/
def take (auditor : Auditor) (request : Request) (disk : Disk) : Turn → Request × Disk
  | .step reply => request.step auditor reply disk
  | .work => request.work disk
  | .event event => (request.notice event, disk)
  | .failure fault => (request.breakOff fault, disk)
  | .cancellation => (request.cancel, disk)

/-- Takes turns until the request is over. What its worker does after that is no part of
the course. -/
def course (auditor : Auditor) (request : Request)
    (disk : Disk) : List Turn → Request × Disk
  | [] => (request, disk)
  | turn :: rest =>
    if request.isEnded then (request, disk)
    else
      let next := request.take auditor disk turn
      course auditor next.1 next.2 rest

/-- What a request is for: an extension that has to be fetched, or a package at hand. -/
inductive Origin
  | target (value : Json)
  | package (bytes : Bytes)

/-- The request for something. -/
def Origin.request (directory : Path) : Origin → Request
  | .target value => .ofTarget directory value
  | .package bytes => .ofPackage directory bytes

end Request

/-- A call of an auditor: what is asked for, the extraction directory that is made for
it, and the turns it takes. -/
structure Call where
  auditor : Auditor
  origin : Request.Origin
  directory : Path
  before : Disk
  opened : Disk
  isOpened : before.makeDirectory directory = .ok opened
  turns : List Request.Turn

namespace Call

/-- The request of a call and the disk, after the turns. -/
def course (call : Call) : Request × Disk :=
  (call.origin.request call.directory).course call.auditor call.opened call.turns

/-- The request of a call after the turns. -/
def request (call : Call) : Request := call.course.1

/-- The disk after the turns of a call. -/
def disk (call : Call) : Disk := call.course.2

end Call

end ExtensionAudit
