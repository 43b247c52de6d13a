import ExtensionAudit.Command.Help
import ExtensionAudit.Disk.Document
import ExtensionAudit.Overview
import ExtensionAudit.Request.Driving
import ExtensionAudit.Settings.Loading
import ExtensionAudit.Severity

/-!
A run of the command: the command line is read, the settings are loaded, the request is
answered, the overview is printed, and the report is saved if that was asked for. A run
ends with an exit code, or it is broken off by a failure that callers are not told of.
-/

namespace ExtensionAudit.Command

/-- A stream that lines are written to: what it shows of a line, or else what is said
for want of it. -/
abbrev Stream := Text → Except Text Text

/-- Where a command runs: what its streams show, how help is laid out, what all of it
runs on, what is on the disk, the variables of the environment, the directory for
extraction, the lint rules, and what the world does. -/
structure Surroundings where
  stdout : Stream
  stderr : Stream
  layout : Help → Text
  platform : Platform
  disk : Disk
  environment : Entries Text
  directory : Path
  rules : Text
  world : World

/-- What a run can be broken off by. -/
inductive Failure
  | settings (fault : Settings.Fault)
  | severity (fault : Severity.Fault)
  | request (fault : Fault)
  | overview (problem : Json.Misuse)
  | spelling (misspelling : Path.Misspelling)
  | saving (fault : Document.SaveFault)
  | unshown (message : Text)

/-- How a run ends. -/
inductive Ending
  | exit (code : Nat)
  | failure (failure : Failure)

/-- What a run comes to: the lines it prints, the lines it complains in, what is on the
disk afterwards, the request it made, if it came so far, and how it ended. -/
structure Outcome where
  printed : List Text
  complaints : List Text
  disk : Disk
  request : Option Request
  ending : Ending

namespace Outcome

/-- A run in which nothing has happened yet. -/
def quiet (disk : Disk) (ending : Ending) : Outcome := ⟨[], [], disk, none, ending⟩

/-- Ends with a failure. -/
def breakOff (outcome : Outcome) (failure : Failure) : Outcome :=
  { outcome with ending := .failure failure }

/-- Complains in a line and ends with an exit code. A line that is not shown breaks the
run off. -/
def refuse (outcome : Outcome) (complaint : Except Text Text) (code : Nat) : Outcome :=
  match complaint with
  | .ok line =>
    { outcome with complaints := outcome.complaints ++ [line], ending := .exit code }
  | .error message => outcome.breakOff (.unshown message)

/-- Prints lines and goes on. One that is not shown breaks the run off. -/
def print (outcome : Outcome) (goOn : Outcome → Outcome) :
    List (Except Text Text) → Outcome
  | [] => goOn outcome
  | .ok line :: rest =>
    print { outcome with printed := outcome.printed ++ [line] } goOn rest
  | .error message :: _ => outcome.breakOff (.unshown message)

end Outcome

/-- The exit code of a run that did what was asked for. -/
def successCode : Nat := 0

/-- The exit code of a run whose audit was not possible. -/
def failureCode : Nat := 1

/-- The exit code of a run that was not asked for properly. -/
def refusalCode : Nat := 2

/-- A complaint, in red. -/
def complaint (message : Text) : Text :=
  Overview.red ++ "[X] " ++ message ++ Overview.resetColour

/-- A complaint that the audit is not possible. -/
def analysisComplaint (message : Text) : Text :=
  complaint ("Analysis failed: " ++ message)

/-- Is the fault one of the configuration, of which callers are told? -/
def isTold : Settings.Fault → Bool
  | .encoding _ => false
  | .tooManyDigits _ => false
  | .overflow _ => false
  | .unreachable _ => false
  | _ => true

/-- Saves a report, if it is to be saved. -/
def save (surroundings : Surroundings) (outcome : Outcome) (report : Report)
    (output : Option Path) :
    Outcome :=
  match output with
  | none => outcome
  | some path =>
    match Document.save report.toJson path outcome.disk with
    | (disk, .error fault) => { outcome with disk := disk }.breakOff (.saving fault)
    | (disk, .ok ()) =>
      Outcome.print { outcome with disk := disk } id
        [surroundings.stdout ("[+] Report saved to " ++ path.text)]

/-- Prints the overview of a report, and saves the report. -/
def present (surroundings : Surroundings) (outcome : Outcome) (report : Report)
    (output : Option Path) :
    Outcome :=
  let overview := Overview.write report.toJson
  let goOn (outcome : Outcome) : Outcome :=
    match overview.fault with
    | some problem => outcome.breakOff (.overview problem)
    | none => save surroundings outcome report output
  outcome.print goOn (overview.lines.map surroundings.stdout)

/-- Tells of a fault, or is broken off by one of which callers are not told. -/
def report (surroundings : Surroundings) (outcome : Outcome) (fault : Fault) : Outcome :=
  match fault.kind with
  | .invalidInput =>
    outcome.refuse (surroundings.stderr (complaint fault.message)) refusalCode
  | .untold => outcome.breakOff (.request fault)
  | .cancelled => outcome.breakOff (.request fault)
  | _ =>
    outcome.refuse (surroundings.stderr (analysisComplaint fault.message)) failureCode

/-- Answers a request. -/
def perform (surroundings : Surroundings) (arguments : Arguments) (auditor : Auditor)
    (request : Request) :
    Outcome :=
  let (request, disk) := request.answer auditor surroundings.world surroundings.disk
  let outcome := { Outcome.quiet disk (.exit successCode) with request := some request }
  match request.outcome with
  | .ok result => present surroundings outcome result arguments.output.toOption
  | .error fault => report surroundings outcome fault

/-- Answers the request that is asked for. A package at hand goes before a target. -/
def audit (surroundings : Surroundings) (arguments : Arguments)
    (settings : Settings) : Outcome :=
  let outcome := Outcome.quiet surroundings.disk (.exit successCode)
  let auditor := Auditor.ofSettings settings surroundings.rules
    (if arguments.isFast then some false else none) surroundings.platform
  match arguments.crx.toOption with
  | none =>
    perform surroundings arguments auditor
      (.ofTarget surroundings.directory (.text (arguments.target.getD [])))
  | some path =>
    match path.misspelling?, surroundings.disk.read path with
    | some misspelling, _ => outcome.breakOff (.spelling misspelling)
    | none, .error fault =>
      outcome.refuse (surroundings.stderr (analysisComplaint fault.message)) failureCode
    | none, .ok package =>
      perform surroundings arguments auditor (.ofPackage surroundings.directory package)

/-- The name of the level from which on messages are logged. -/
def logLevel (arguments : Arguments) (settings : Settings) : Text :=
  match arguments.logLevel.toOption.getD [] with
  | [] => settings .logLevel
  | level => level

/-- The configuration file that is asked for. A blank value asks for the usual one. -/
def configChoice : Given Path → Settings.Choice
  | .absent => .optional
  | .blank => .usual
  | .value path => .file path

/-- Loads the settings and answers the request that is asked for. -/
def prepare (surroundings : Surroundings) (arguments : Arguments) : Outcome :=
  let outcome := Outcome.quiet surroundings.disk (.exit successCode)
  match Settings.load (configChoice arguments.config) surroundings.environment
    surroundings.disk with
  | .error fault =>
    if isTold fault
      then outcome.refuse (surroundings.stderr (complaint fault.message)) failureCode
    else outcome.breakOff (.settings fault)
  | .ok settings =>
    match Severity.log (.text (logLevel arguments settings)) with
    | .error fault => outcome.breakOff (.severity fault)
    | .ok _ => audit surroundings arguments settings

/-- Runs the command with the words that follow its name. Help, and what is said of a
command line that asks for nothing, is left out where it is not shown. -/
def run (surroundings : Surroundings) (texts : List Text) : Outcome :=
  match Order.ofTexts texts with
  | .error fault =>
    { Outcome.quiet surroundings.disk (.exit refusalCode) with
      complaints := (surroundings.stderr fault.message).toOption.toList }
  | .ok .help =>
    { Outcome.quiet surroundings.disk (.exit successCode) with
      printed := (surroundings.stdout (surroundings.layout help)).toOption.toList }
  | .ok (.audit arguments) => prepare surroundings arguments

/-- What is said of a run that is broken off. -/
def Failure.message : Failure → Text
  | .settings fault => fault.message
  | .severity fault => fault.message
  | .request fault => fault.message
  | .overview problem => problem.message
  | .spelling misspelling => misspelling.message
  | .saving fault => fault.message
  | .unshown message => message

end ExtensionAudit.Command
