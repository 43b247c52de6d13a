import ExtensionAudit.Number.Decimal
import ExtensionAudit.Text.Blank
import ExtensionAudit.Tool.Basic

/-!
The run of a tool, event by event. A process that is started is waited for until it
ends, until its time is up, or until the run is cancelled. In the last two cases it is
killed, unless its exit code is known by then, and the run ends once the process has
been waited for.
-/

namespace ExtensionAudit.Tool

/-- How a process ended: its exit code and what it wrote to its two streams. -/
structure Exit where
  code : Int
  output : Bytes
  diagnostics : Bytes
deriving DecidableEq

/-- What a run is given: a name for messages, the command, the time limit, the exit
codes that are accepted, and whether diagnostics are. -/
structure Terms where
  name : Text
  command : List Text
  limit : Binary64
  accepted : List Int
  allowsDiagnostics : Bool
deriving DecidableEq

/-- Why a new process cannot be given the command, if it cannot: the first word of it
that cannot be spelt. -/
def Terms.misspelling? (terms : Terms) : Option Path.Misspelling :=
  terms.command.findSome? Path.misspellingOf?

/-- What a run does to its process. -/
inductive Act
  | start
  | kill
  | wait
deriving DecidableEq

/-- Why a process is not waited for any longer. -/
inductive Interruption
  | expiry
  | cancellation
deriving DecidableEq

/-- How a run ends. -/
inductive Outcome
  | output (t : Text)
  | fault (f : Fault)
  | cancelled
deriving DecidableEq

/-- How far a run is. -/
inductive Phase
  | ready
  | waiting
  | reaping (cause : Interruption)
  | ended (outcome : Outcome)
deriving DecidableEq

/-- What is known of the process. One that is lost was gone when it was to be killed. -/
inductive Standing
  | absent
  | running
  | exited
  | killed
  | lost
  | waitedFor
deriving DecidableEq

/-- What is left of a process that is no longer waited for: whether its exit code is
known, and whether it is there. -/
structure Remains where
  isCodeKnown : Bool
  isThere : Bool
deriving DecidableEq

/-- Why a process cannot be killed. -/
inductive KillFault
  | noProcess
deriving DecidableEq

/-- A run of a tool: how far it is, what is known of its process, and what it did to
it. -/
structure Run where
  phase : Phase
  standing : Standing
  acts : List Act
deriving DecidableEq

/-- What can happen to a run. -/
inductive Event
  | started
  | refused (refusal : Refusal)
  | exited (exit : Exit)
  | interrupted (cause : Interruption) (remains : Remains)
  | reaped
deriving DecidableEq

/-- A run before its start. -/
def Run.ready : Run := ⟨.ready, .absent, []⟩

/-- Judges a process that ended by itself: first its exit code, then its diagnostics. -/
def Terms.verdict (terms : Terms) (exit : Exit) : Outcome :=
  let diagnostics := Text.trim (Utf8.decodeLossy exit.diagnostics)
  if !terms.accepted.contains exit.code
    then .fault (.badExit terms.name exit.code diagnostics)
  else if diagnostics != [] && !terms.allowsDiagnostics
    then .fault (.complaint terms.name diagnostics)
  else .output (Utf8.decodeLossy exit.output)

/-- How a run ends that was interrupted. -/
def Terms.interruptedOutcome (terms : Terms) : Interruption → Outcome
  | .expiry => .fault (.overdue terms.name terms.limit)
  | .cancellation => .cancelled

/-- Starts a process, if there is a program to start and the command can be spelt. -/
def Run.start (terms : Terms) (run : Run) (refusal : Option Refusal) : Run :=
  match terms.command, terms.misspelling?, refusal with
  | [], _, _ => { run with phase := .ended (.fault .noProgram) }
  | _ :: _, some misspelling, _ =>
    { run with phase := .ended (.fault (.misspelt misspelling)) }
  | program :: _, none, some refusal =>
    { run with phase := .ended (.fault (.notStarted terms.name ⟨refusal, program⟩)) }
  | _ :: _, none, none => ⟨.waiting, .running, run.acts ++ [.start]⟩

/-- Kills a process, if it is there. -/
def Run.kill (run : Run) (remains : Remains) : Run × Except KillFault Unit :=
  let acts := run.acts ++ [.kill]
  if remains.isThere then ({ run with standing := .killed, acts := acts }, .ok ())
  else ({ run with standing := .lost, acts := acts }, .error .noProcess)

/-- Waits for a process that was to be killed. -/
def Run.await (run : Run) (cause : Interruption) : Run :=
  { run with phase := .reaping cause, acts := run.acts ++ [.wait] }

/-- Gives a process up. Unless its exit code is known, it is killed and waited for, also
if there is none left to kill. -/
def Run.giveUp (terms : Terms) (run : Run) (cause : Interruption)
    (remains : Remains) : Run :=
  if remains.isCodeKnown then
    { run with phase := .ended (terms.interruptedOutcome cause), standing := .exited }
  else match run.kill remains with
    | (run, .ok ()) => run.await cause
    | (run, .error .noProcess) => run.await cause

/-- What an event does to a run. An event that cannot happen in a phase does nothing. A
cancellation ends also a run that is waiting for a killed process. -/
def Run.step (terms : Terms) (run : Run) (event : Event) : Run :=
  match run.phase, event with
  | .ready, .started => run.start terms none
  | .ready, .refused refusal => run.start terms (some refusal)
  | .ready, .interrupted .cancellation _ => { run with phase := .ended .cancelled }
  | .waiting, .exited exit =>
    { run with phase := .ended (terms.verdict exit), standing := .exited }
  | .waiting, .interrupted cause remains => run.giveUp terms cause remains
  | .reaping cause, .reaped =>
    { run with phase := .ended (terms.interruptedOutcome cause), standing := .waitedFor }
  | .reaping _, .interrupted .cancellation _ => { run with phase := .ended .cancelled }
  | _, _ => run

/-- What events do to a run, one after another. -/
def Run.steps (terms : Terms) (run : Run) (events : List Event) : Run :=
  events.foldl (Run.step terms) run

/-- How a run ended, if it has. -/
def Run.outcome? (run : Run) : Option Outcome :=
  match run.phase with
  | .ended outcome => some outcome
  | _ => none

/-- What is said of a tool without a result. -/
def Fault.message : Fault → Text
  | .notStarted name fault => name ++ " could not be started: " ++ fault.message
  | .overdue name limit => name ++ " timed out after " ++ limit.generalText ++ "s"
  | .badExit name code diagnostics =>
    name ++ " exited with code " ++ Text.ofInt code ++ ": " ++
    (if diagnostics == [] then ("no diagnostics" : Text) else diagnostics)
  | .complaint name diagnostics => name ++ " reported errors: " ++ diagnostics
  | .malformed name fault => name ++ " produced invalid JSON: " ++ fault.message
  | .notObject => "retire output is not a JSON object"
  | .dataNotList => "retire output 'data' is not a list"
  | .notArray => "eslint output is not a JSON array"
  | .noProgram =>
    "create_subprocess_exec() missing 1 required positional argument: 'program'"
  | .misspelt misspelling => misspelling.message
  | .misuse problem => problem.message

end ExtensionAudit.Tool
