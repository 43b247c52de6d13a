import ExtensionAudit.Tool.Run

/-!
Processes, by what they would do if nothing interfered: they cannot be started, end
within any time limit, overrun every limit, or never end. From this follows what happens
to a run.
-/

namespace ExtensionAudit.Tool

/-- How long a process takes. -/
inductive Pace
  | prompt
  | overdue
  | endless
deriving DecidableEq

/-- What a process would do, and what would be left of it if it were interrupted. -/
structure Behavior where
  refusal : Option Refusal
  pace : Pace
  remains : Remains
  exit : Exit
deriving DecidableEq

/-- Is there no time at all within the limit? There is none within what is not a
number. -/
def hasNoTime (limit : Binary64) : Bool := limit.ltInt 0 || limit.isZero || limit == .nan

/-- What happens when the process is to be started. -/
def Behavior.launch (p : Behavior) : Event :=
  match p.refusal with
  | some refusal => .refused refusal
  | none => .started

/-- What happens when the time of a process is up. -/
def Behavior.expiry (p : Behavior) : List Event :=
  [.interrupted .expiry p.remains, .reaped]

/-- What happens when the run is cancelled. -/
def Behavior.cancellation (p : Behavior) : List Event :=
  [.interrupted .cancellation p.remains, .reaped]

/-- What happens soon after the start. A process that never ends shows no sign by then,
unless there is no time at all. -/
def Behavior.course (p : Behavior) (limit : Binary64) : List Event :=
  if hasNoTime limit then p.expiry
  else match p.pace with
    | .prompt => [.exited p.exit]
    | .overdue => p.expiry
    | .endless => []

/-- Runs a process with nothing to cancel it. -/
def Behavior.run (p : Behavior) (terms : Terms) : Run :=
  Run.ready.steps terms ([p.launch] ++ p.course terms.limit ++ p.expiry)

end ExtensionAudit.Tool
