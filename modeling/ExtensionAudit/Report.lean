import ExtensionAudit.Json.Arithmetic

/-!
The report of an audit. Its total is the sum of four scores: metadata, policy,
permissions, libraries. How many scripts use Chrome interfaces and how many lint
messages there are is shown beside them and never added.
-/

namespace ExtensionAudit

/-- The scores and counts of a report. -/
structure Breakdown where
  metadata : Json
  policy : Json
  permissions : Json
  libraries : Json
  chromeApiFiles : Nat
  lintIssues : Json

/-- What stands behind the scores. -/
structure Details where
  facts : Json
  policy : Json
  permissions : Json
  libraries : Json
  chromeApis : Json
  dataHandling : Json
  lint : Json

/-- A report. -/
structure Report where
  name : Json
  version : Json
  description : Json
  total : Json
  breakdown : Breakdown
  details : Details

namespace Report

/-- Puts a report together from a manifest, four scores, three of them with details, and
the documents of the other analyses. -/
def compose (manifest metadata : Json) (policy permissions libraries : Json × Json)
    (facts usage lint : Json) : Except Json.Misuse Report := do
  let usage ← usage.members
  let chromeApis := (usage.get? "chromeAPIUsage").getD (.object [])
  let manifest ← manifest.members
  let described (field fallback : String) : Json :=
    (Json.member field manifest).orElse fallback
  let total ← metadata.add policy.1
  let total ← total.add permissions.1
  let total ← total.add libraries.1
  let chromeApiFiles ← chromeApis.size
  let lintMembers ← lint.members
  .ok {
    name := described "name" "No name specified"
    version := described "version" "No version specified"
    description := described "description" "No description specified"
    total
    breakdown := {
      metadata
      policy := policy.1
      permissions := permissions.1
      libraries := libraries.1
      chromeApiFiles
      lintIssues := (lintMembers.get? "totalIssues").getD (.int 0) }
    details := {
      facts
      policy := policy.2
      permissions := permissions.2
      libraries := libraries.2
      chromeApis
      dataHandling := (usage.get? "dataHandling").getD (.object [])
      lint } }

/-- Puts a report together when each score and its details come as one value with two
parts. -/
def build (manifest metadata policy permissions libraries facts usage lint : Json) :
    Except Json.Misuse Report := do
  let policy ← policy.pair
  let permissions ← permissions.pair
  let libraries ← libraries.pair
  compose manifest metadata policy permissions libraries facts usage lint

/-- The report as a document. -/
def toJson (report : Report) : Json :=
  .object [
    ("name", report.name),
    ("version", report.version),
    ("description", report.description),
    ("totalRiskScore", report.total),
    ("breakdown", .object [
      ("metadataScore", report.breakdown.metadata),
      ("cspScore", report.breakdown.policy),
      ("permissionsScore", report.breakdown.permissions),
      ("jsLibrariesScore", report.breakdown.libraries),
      ("chromeAPIUsage", .int report.breakdown.chromeApiFiles),
      ("eslintIssues", report.breakdown.lintIssues)]),
    ("details", .object [
      ("manifestAnalysis", report.details.facts),
      ("cspDetails", report.details.policy),
      ("permissionsDetails", report.details.permissions),
      ("jsLibrariesDetails", report.details.libraries),
      ("chromeAPIUsage", report.details.chromeApis),
      ("dataHandling", report.details.dataHandling),
      ("lintDetails", report.details.lint)])]

end Report

end ExtensionAudit
