import ExtensionAudit.Join
import ExtensionAudit.Request.Fault
import ExtensionAudit.Score.Manifest
import ExtensionAudit.Tool.Output
import ExtensionAudit.Tool.Behavior

/-!
The four analyses of an extension, which go on at the same time: its manifest is scored,
its scripts are surveyed, and the two tools run on its directory. They are joined, so
the first failure cancels the others, and a tool that is cancelled kills its process and
waits for it.
-/

namespace ExtensionAudit

/-- What an analysis comes to. -/
inductive Part
  | scores (scores : ManifestScores)
  | usage (usage : Script.Usage)
  | findings (entries : List Json)
  | lint (summary : Lint.Summary)

/-- What is analysed: a manifest and scripts, with the terms of the tools if they are to
run. -/
structure Workload where
  manifest : List (Text × Json)
  files : Entries Text
  tools : Option (Tool → Tool.Terms)

/-- The four analyses under way. -/
structure Analysis where
  scan : Tool.Run
  lint : Tool.Run
  join : Join Part Fault

namespace Analysis

/-- What can happen to the analyses. -/
inductive Event
  | scored
  | surveyed
  | dropped
  | tool (tool : Tool) (event : Tool.Event)
  | broken (index : Nat) (fault : Fault)
  | aborted

/-- The place of a tool among the four. -/
def index : Tool → Nat
  | .retire => 2
  | .eslint => 3

/-- The run of a tool. -/
def run (analysis : Analysis) : Tool → Tool.Run
  | .retire => analysis.scan
  | .eslint => analysis.lint

/-- Puts a run in the place of a tool's run. -/
def setRun (analysis : Analysis) (tool : Tool) (run : Tool.Run) : Analysis :=
  match tool with
  | .retire => { analysis with scan := run }
  | .eslint => { analysis with lint := run }

/-- Settles one of the four. -/
def settle (analysis : Analysis) (index : Nat)
    (settlement : Settlement Part Fault) : Analysis :=
  { analysis with join := analysis.join.settle index settlement }

/-- The settlement that a result is. -/
def settlement (result : Except Fault Part) : Settlement Part Fault :=
  match result with
  | .ok part => .finished part
  | .error fault => .failed fault

/-- What the output of a tool comes to. -/
def ofOutput (tool : Tool) (output : Text) : Except Fault Part :=
  match tool with
  | .retire => ((Tool.findings output).map .findings).mapError .tool
  | .eslint => ((Tool.lintSummary output).map .lint).mapError .tool

/-- What the end of a tool's run comes to. -/
def ofOutcome (tool : Tool) : Tool.Outcome → Settlement Part Fault
  | .output t => settlement (ofOutput tool t)
  | .fault fault => .failed (.tool fault)
  | .cancelled => .cancelled none

/-- Does the event cancel a run? -/
def isCancellation : Tool.Event → Bool
  | .interrupted .cancellation _ => true
  | _ => false

/-- The analyses at their start. Tools that are not to run have found nothing. -/
def start (work : Workload) : Analysis :=
  let analysis : Analysis := ⟨.ready, .ready, .start 4⟩
  match work.tools with
  | some _ => analysis
  | none =>
    (analysis.settle 2 (.finished (.findings []))).settle 3 (.finished (.lint .empty))

/-- What an event does to the run of a tool. Nothing cancels a run before there is a
failure. -/
def stepTool (analysis : Analysis) (terms : Tool.Terms) (tool : Tool)
    (event : Tool.Event) :
    Analysis :=
  if isCancellation event && analysis.join.failure.isNone then analysis
  else
    let run := (analysis.run tool).step terms event
    let analysis := analysis.setRun tool run
    match run.outcome? with
    | some outcome => analysis.settle (index tool) (ofOutcome tool outcome)
    | none => analysis

/-- What an event does to the analyses. One that is aborted as a whole comes to nothing
else, whatever failed before. -/
def step (work : Workload) (analysis : Analysis) : Event → Analysis
  | .scored =>
    analysis.settle 0 (settlement
      (((ManifestScores.ofJson (.object work.manifest)).map .scores).mapError .misuse))
  | .surveyed => analysis.settle 1 (.finished (.usage (Script.usage work.files)))
  | .dropped => (analysis.settle 0 (.cancelled none)).settle 1 (.cancelled none)
  | .tool tool event =>
    match work.tools with
    | some terms => analysis.stepTool (terms tool) tool event
    | none => analysis
  | .broken index fault => analysis.settle index (.failed fault)
  | .aborted =>
    { analysis with join := { analysis.join with failure := some .cancelled } }

/-- What events do to the analyses, one after another. -/
def steps (work : Workload) (analysis : Analysis) (events : List Event) : Analysis :=
  events.foldl (step work) analysis

/-- The outcome, once all four are settled. -/
def outcome? (analysis : Analysis) : Option (Except Fault (List Part)) :=
  analysis.join.outcome?

/-- What happens to the analyses when the tools' processes go their way: both are
started, the scanner first, and what takes no time comes to its end. Then a failure
cancels what is left; without one, time runs out for it. -/
def schedule (work : Workload) (behavior : Tool → Tool.Behavior) : List Event :=
  let launch (tool : Tool) : List Event := [.tool tool (behavior tool).launch]
  let course (tool : Tool) : List Event :=
    match work.tools with
    | some terms => ((behavior tool).course (terms tool).limit).map (.tool tool)
    | none => []
  let cancellation (tool : Tool) : List Event :=
    (behavior tool).cancellation.map (.tool tool)
  let expiry (tool : Tool) : List Event := (behavior tool).expiry.map (.tool tool)
  launch .retire ++ launch .eslint ++ [.scored, .surveyed] ++ course .retire ++
    course .eslint ++
    cancellation .retire ++ cancellation .eslint ++
    expiry .retire ++ cancellation .eslint ++ expiry .eslint

end Analysis

end ExtensionAudit
