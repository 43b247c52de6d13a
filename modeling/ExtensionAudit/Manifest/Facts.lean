import ExtensionAudit.Manifest.Policy

/-!
Structural facts of a manifest that a security review wants to see. What is absent or
empty is recorded as an empty list, null or false, and nothing in a manifest makes the
collection fail, short of the manifest not being an object.
-/

namespace ExtensionAudit.Manifest

/-- What a review is told of the policy at the top of the manifest. -/
inductive PolicyFact
  | present (policy : Json)
  | missing

/-- The facts of a manifest. -/
structure Facts where
  policy : PolicyFact
  backgroundScripts : List Json
  contentScriptDomains : List Json
  webAccessibleResources : Json
  connectable : List Json
  updateUrl : Json
  usesOAuth : Bool
  overrides : List Text
  author : Option Json
  developer : Option (Entries Json)
  chromeOsKeys : List Text
  version : Json
  minimumChromeVersion : Json

/-- The members that replace pages or settings of the browser. -/
def overrideNames : List Text := ["chrome_url_overrides", "chrome_settings_overrides"]

/-- The members that only ChromeOS knows. -/
def chromeOsNames : List Text := ["file_browser_handlers", "input_components"]

/-- The scripts that run in the background: the listed ones, then the service worker. -/
def backgroundScripts : Json → List Json
  | .object background =>
    let worker := Json.member "service_worker" background
    (Json.member "scripts" background).listed ++ if worker.isTruthy then [worker] else []
  | _ => []

/-- The patterns under `matches` of an object. -/
def matchPatterns : Json → List Json
  | .object members => (Json.member "matches" members).listed
  | _ => []

/-- The value if it is truthy. -/
def present? (value : Json) : Option Json := if value.isTruthy then some value else none

/-- The members of an object that has any. -/
def populated? : Json → Option (Entries Json)
  | .object (entry :: rest) => some (entry :: rest)
  | _ => none

/-- The facts of the manifest with these members. -/
def factsOf (manifest : Entries Json) : Facts :=
  let field (name : String) := Json.member name manifest
  { policy := match present? (field "content_security_policy") with
      | some policy => .present policy
      | none => .missing
    backgroundScripts := backgroundScripts (field "background")
    contentScriptDomains := (field "content_scripts").listed.flatMap matchPatterns
    webAccessibleResources := (field "web_accessible_resources").orElse (.array [])
    connectable := matchPatterns (field "externally_connectable")
    updateUrl := (field "update_url").orElse .null
    usesOAuth := (field "oauth2").isTruthy
    overrides := overrideNames.filter fun name => (Json.member name manifest).isTruthy
    author := present? (field "author")
    developer := populated? (field "developer")
    chromeOsKeys := chromeOsNames.filter fun name => (Json.member name manifest).isTruthy
    version := field "version"
    minimumChromeVersion := (field "minimum_chrome_version").orElse "Not specified" }

/-- The facts of a manifest. -/
def facts (manifest : Json) : Except Json.Misuse Facts := do
  .ok (factsOf (← manifest.members))

/-- A list of texts as a document. -/
def textArray (ts : List Text) : Json := .array (ts.map .text)

/-- A member that is there only if it has a value. -/
def optionalMember (name : Text) : Option Json → Entries Json
  | some value => [(name, value)]
  | none => []

/-- The policy fact as a document. -/
def PolicyFact.toJson : PolicyFact → Json
  | .present policy => .object [("present", .bool true), ("policy", policy)]
  | .missing => .object [("present", .bool false), ("warning", "No CSP defined.")]

/-- The facts as a document. -/
def Facts.toJson (facts : Facts) : Json :=
  .object [
    ("cspAnalysis", facts.policy.toJson),
    ("backgroundScripts", .array facts.backgroundScripts),
    ("contentScriptsDomains", .array facts.contentScriptDomains),
    ("webAccessibleResources", facts.webAccessibleResources),
    ("externallyConnectable", .array facts.connectable),
    ("updateUrl", facts.updateUrl),
    ("oauth2", .bool facts.usesOAuth),
    ("specificOverrides", textArray facts.overrides),
    ("developerInfo", .object (
      optionalMember "author" facts.author ++
      optionalMember "developer" (facts.developer.map .object))),
    ("chromeOsKeys", textArray facts.chromeOsKeys),
    ("versionInfo", .object [
      ("version", facts.version),
      ("minChromeVersion", facts.minimumChromeVersion)])]

end ExtensionAudit.Manifest
