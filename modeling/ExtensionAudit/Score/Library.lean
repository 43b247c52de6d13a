import ExtensionAudit.Json.Printer
import ExtensionAudit.Text.Casing

/-!
The library score: what a vulnerability scan found, a document of files with libraries
with vulnerabilities. Each vulnerability adds the points of its severity. The details
are keyed by component and position, so a later record of the same component and
position replaces an earlier one there, while both have been counted.
-/

namespace ExtensionAudit.Score

/-- The points of a severity, in any case; an unknown one has none. -/
def severityPoints (severity : Text) : Nat :=
  let severity := Text.lower severity
  if severity == ("low" : Text) then 10
  else if severity == ("medium" : Text) then 20
  else if severity == ("high" : Text) then 30
  else if severity == ("critical" : Text) then 40
  else 0

/-- The points of the record with these members. -/
def vulnerabilityOf (vulnerability : Entries Json) : Nat :=
  match Json.member "severity" vulnerability with
  | .text severity => severityPoints severity
  | _ => 0

/-- The points of a vulnerability record. -/
def vulnerability (record : Json) : Except Json.Misuse Nat := do
  .ok (vulnerabilityOf (← record.members))

/-- What a report says of one vulnerability. -/
structure Finding where
  component : Json
  severity : Option Text
  info : Option Text
  summary : Json
  cve : Text

/-- A null for nothing. -/
def textOrNull : Option Text → Json
  | some t => .text t
  | none => .null

/-- The finding as a document. -/
def Finding.toJson (finding : Finding) : Json :=
  .object [
    ("component", finding.component),
    ("severity", textOrNull finding.severity),
    ("info", textOrNull finding.info),
    ("summary", finding.summary),
    ("CVE", .text finding.cve)]

/-- The score so far, and the findings by key. -/
structure LibraryScore where
  score : Nat
  findings : Entries Finding

/-- What an iteration over the value passes; a falsy value stands for nothing. -/
def itemsOf (value : Json) : Except Json.Misuse (List Json) :=
  if value.isTruthy then value.items else .ok []

/-- The values written one after another, with commas between. -/
def listing (values : List Json) : Text := Text.join ", " (values.map Json.shown)

/-- The key of a component's finding at a position. -/
def findingKey (component : Json) (index : Nat) : Text :=
  component.shown ++ "-vuln-" ++ Text.ofNat index

/-- The finding of the record with these members. -/
def findingOf (component : Json) (vulnerability : Entries Json) :
    Except Json.Misuse Finding := do
  let identifiers : Entries Json := match Json.member "identifiers" vulnerability with
    | .object identifiers => identifiers
    | _ => []
  let cve ← itemsOf (Json.member "CVE" identifiers)
  .ok {
    component
    severity := match Json.member "severity" vulnerability with
      | .text severity => some (Text.lower severity)
      | _ => none
    info := match Json.member "info" vulnerability with
      | .array info => some (listing info)
      | _ => none
    summary := Json.member "summary" identifiers
    cve := listing cve }

/-- Adds the vulnerability at a position; what is not an object is passed over. -/
def addVulnerability (component : Json) (index : Nat) (total : LibraryScore) :
    Json → Except Json.Misuse LibraryScore
  | .object vulnerability => do
    let finding ← findingOf component vulnerability
    .ok {
      score := total.score + vulnerabilityOf vulnerability
      findings := total.findings.put (findingKey component index) finding }
  | _ => .ok total

/-- Adds the vulnerabilities from a position on. -/
def addVulnerabilities (component : Json) (index : Nat) (total : LibraryScore) :
    List Json → Except Json.Misuse LibraryScore
  | [] => .ok total
  | vulnerability :: rest => do
    addVulnerabilities component (index + 1)
      (← addVulnerability component index total vulnerability) rest

/-- Adds a library; what is not an object is passed over. -/
def addLibrary (total : LibraryScore) : Json → Except Json.Misuse LibraryScore
  | .object library => do
    let vulnerabilities ← itemsOf (Json.member "vulnerabilities" library)
    addVulnerabilities (Json.member "component" library) 0 total vulnerabilities
  | _ => .ok total

/-- Adds the libraries of a file; what is not an object is passed over. -/
def addFile (total : LibraryScore) : Json → Except Json.Misuse LibraryScore
  | .object file => do (← itemsOf (Json.member "results" file)).foldlM addLibrary total
  | _ => .ok total

/-- The library score of a scan, with details. -/
def libraries (scan : Json) : Except Json.Misuse LibraryScore := do
  (← itemsOf scan).foldlM addFile ⟨0, []⟩

/-- The details as a document. -/
def LibraryScore.details (total : LibraryScore) : Json :=
  .object (total.findings.map fun (key, finding) => (key, finding.toJson))

end ExtensionAudit.Score
