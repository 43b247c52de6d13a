import ExtensionAudit.Json.Arithmetic
import ExtensionAudit.Json.Printer

/-!
The overview of a report for a terminal: name, version, total in the colour of its
gravity, the scores, and a line for each permission with a risk. Each value is looked up
when its line is written, so what a faulty report lacks shows after the lines above it.
-/

namespace ExtensionAudit.Overview

/-- Begins the colour of a grave score. -/
def red : Text := "\x1b[31m"

/-- Begins the colour of a score that needs attention. -/
def yellow : Text := "\x1b[33m"

/-- Begins the colour of a harmless score. -/
def green : Text := "\x1b[32m"

/-- Ends a colour. -/
def resetColour : Text := "\x1b[0m"

/-- The colour of a score: red from 30, yellow from 10, otherwise green. -/
def colour (score : Json) : Except Json.Misuse Text := do
  if ← score.atLeast 30 then .ok red
  else if ← score.atLeast 10 then .ok yellow
  else .ok green

/-- The line above and below an overview. -/
def heavyRule : Text := Text.rule 80 '='

/-- The line between two parts of an overview. -/
def lightRule : Text := Text.rule 80 '-'

/-- The lines of an overview so far, and what stopped it, if something did. -/
structure Output where
  lines : List Text
  fault : Option Json.Misuse
deriving DecidableEq

/-- Writes the lines one after another, up to the first that cannot be made. -/
def writeAll : List (Except Json.Misuse Text) → Output
  | [] => ⟨[], none⟩
  | .error fault :: _ => ⟨[], some fault⟩
  | .ok line :: rest =>
    let output := writeAll rest; { output with lines := line :: output.lines }

/-- A line with a label and the text of a member. -/
def labelled (label : String) (holder : Json) (key : Text) : Except Json.Misuse Text := do
  .ok (label ++ (← holder.require key).shown)

/-- The lines of the permissions, under a rule if there are any. -/
def permissionLines (report : Json) : List (Except Json.Misuse Text) :=
  match do (← report.require "details").require "permissionsDetails" with
  | .error fault => [.error fault]
  | .ok permissions =>
    if permissions.isTruthy then
      match permissions with
      | .object members =>
        .ok lightRule :: members.map fun (_, message) => .ok ("  [!] " ++ message.shown)
      | value => [.ok lightRule, .error (.noAttribute value.kind "values")]
    else []

/-- The overview of a report. -/
def write (report : Json) : Output :=
  match do
      let breakdown ← report.require "breakdown"
      .ok (breakdown, ← colour (← report.require "totalRiskScore")) with
  | .error fault => ⟨[], some fault⟩
  | .ok (breakdown, colour) =>
    writeAll ([
      .ok heavyRule,
      labelled "Extension: " report "name",
      labelled "Version:   " report "version",
      do
        let total ← report.require "totalRiskScore"
        .ok ("Total risk score: " ++ colour ++ total.shown ++ resetColour),
      .ok lightRule,
      labelled "  Metadata:      " breakdown "metadataScore",
      labelled "  CSP:           " breakdown "cspScore",
      labelled "  Permissions:   " breakdown "permissionsScore",
      labelled "  JS libraries:  " breakdown "jsLibrariesScore",
      labelled "  Files using chrome.* APIs: " breakdown "chromeAPIUsage",
      labelled "  Lint issues:   " breakdown "eslintIssues"] ++
      permissionLines report ++
      [.ok heavyRule])

end ExtensionAudit.Overview
