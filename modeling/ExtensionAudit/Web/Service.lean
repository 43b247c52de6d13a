import ExtensionAudit.Request.Driving
import ExtensionAudit.Settings.Loading
import ExtensionAudit.Severity
import ExtensionAudit.Web.Answer
import ExtensionAudit.Web.Description
import ExtensionAudit.Web.Location

/-!
The service: a page with a form, a sign of life, and the analysis of the extension that
the form names; beside these it describes itself, and shows the description on pages
that are not its own. The service always answers. What went wrong with an analysis is
not told, except that the extension was not named properly.
-/

namespace ExtensionAudit.Web

/-- A page that shows the description of a service to readers. -/
inductive Guide
  | trial
  | trialReturn
  | reference
deriving DecidableEq

/-- What the service offers. -/
inductive Route
  | description
  | guide (guide : Guide)
  | page
  | health
  | analysis
deriving DecidableEq

namespace Route

/-- Where it is offered. -/
def path : Route → Text
  | .description => "/openapi.json"
  | .guide .trial => "/docs"
  | .guide .trialReturn => "/docs/oauth2-redirect"
  | .guide .reference => "/redoc"
  | .page => "/"
  | .health => "/health"
  | .analysis => "/analyze-extension"

/-- The methods by which it can be asked for. -/
def methods : Route → List Text
  | .page => ["GET"]
  | .health => ["GET"]
  | .analysis => ["POST"]
  | _ => ["GET", "HEAD"]

/-- Everything that is offered. -/
def all : List Route :=
  [.description, .guide .trial, .guide .trialReturn, .guide .reference, .page,
  .health, .analysis]

/-- What a path leads to. A line feed may stand at its end. -/
def ofPath? (path : Text) : Option Route :=
  all.find? fun route => path == route.path || path == route.path ++ "\n"

/-- The path without the slashes at its end, or with one if it has none. -/
def otherPath (path : Text) : Text :=
  if Text.endsWith "/" path then (path.reverse.dropWhile Path.isSlash).reverse
  else path ++ "/"

end Route

/-- Where a path leads: to something that is offered, to another path where something is
offered, or nowhere. -/
inductive Way
  | offered (route : Route)
  | detour (path : Text)
  | nowhere
deriving DecidableEq

/-- Where a path leads. -/
def Way.ofPath (path : Text) : Way :=
  match Route.ofPath? path with
  | some route => .offered route
  | none =>
    let other := Route.otherPath path
    if (Route.ofPath? other).isSome then .detour other else .nowhere

/-- What a visitor asks: by which method, for what, and with which fields of a form. -/
structure Submission where
  method : Text
  asked : Text
  form : Entries Text
deriving DecidableEq

/-- The field of the form that names the extension. -/
def targetField : Text := "extensionUrl"

/-- What a submission comes to: the answer, the request that was made for it, if there
was one, and what is on the disk afterwards. -/
structure Outcome where
  answer : Answer
  request : Option Request
  disk : Disk

/-- What a service has for its requests: the auditor, the directory for extraction, and
the pages that show its description. -/
structure Service where
  auditor : Auditor
  directory : Path
  guides : Guide → Text

namespace Service

/-- Answers with the report of a request that is over. Only a request whose report can
be written is responded to. -/
def conclude (request : Request) (disk : Disk) : Outcome :=
  match request.outcome with
  | .error .target => ⟨.plain 400 Fault.target.message, some request, disk⟩
  | .error _ => ⟨.plain 500 "Failed to analyze extension", some request, disk⟩
  | .ok report =>
    match encoded? report.toJson with
    | some content =>
      ⟨.octets 200 content,
        some { request with record := request.record.advance .responded }, disk⟩
    | none => ⟨.broken, some request, disk⟩

/-- Analyses the extension that is named. -/
def analyze (service : Service) (world : World) (target : Text) (disk : Disk) : Outcome :=
  let (request, disk) :=
    (Request.ofTarget service.directory (.text target)).answer service.auditor world disk
  conclude request disk

/-- Gives what is offered. -/
def offer (service : Service) (world : World) (form : Entries Text)
    (disk : Disk) : Route → Outcome
  | .page => ⟨.page Web.page, none, disk⟩
  | .health => ⟨.remark 200 "status" "ok", none, disk⟩
  | .analysis => service.analyze world ((Entries.get? targetField form).getD []) disk
  | .description => ⟨.document 200 Web.description, none, disk⟩
  | .guide guide => ⟨.page (service.guides guide), none, disk⟩

/-- Answers a submission. -/
def answer (service : Service) (world : World) (submission : Submission)
    (disk : Disk) : Outcome :=
  match Way.ofPath (Location.path submission.asked) with
  | .nowhere => ⟨.remark 404 "detail" "Not Found", none, disk⟩
  | .detour path => ⟨.detour (path ++ Location.query submission.asked), none, disk⟩
  | .offered route =>
    if !route.methods.contains submission.method then
      ⟨.remark 405 "detail" "Method Not Allowed", none, disk⟩
    else
      let outcome := service.offer world submission.form disk route
      if submission.method == ("HEAD" : Text)
        then { outcome with answer := outcome.answer.bare }
      else outcome

end Service

/-- What a service is started with. -/
structure Launch where
  host : Text
  port : Int
  title : Text
  version : Text
  usesTools : Bool
deriving DecidableEq

namespace Launch

/-- Why a service is not started. -/
inductive Fault
  | settings (fault : Settings.Fault)
  | severity (fault : Severity.Fault)

/-- What a service is started with in an environment. -/
def prepare (environment : Entries Text) (disk : Disk) : Except Fault Launch := do
  let settings ← (Settings.load .optional environment disk).mapError .settings
  let _ ← (Severity.log (.text (settings .logLevel))).mapError .severity
  .ok ⟨settings .host, settings .port, Web.title, Web.version,
    settings .externalScannersEnabled⟩

end Launch

end ExtensionAudit.Web
