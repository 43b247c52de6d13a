import ExtensionAudit.Json.Basic

/-!
The metadata score: a point for each piece of information about the publisher that is
missing.
-/

namespace ExtensionAudit.Score

/-- Does the manifest name a developer with an address for mail? -/
def hasDeveloperMail (manifest : Entries Json) : Bool :=
  match Json.member "developer" manifest with
  | .object developer => (Json.member "email" developer).isTruthy
  | _ => false

/-- A point if the condition fails. -/
def pointUnless (condition : Bool) : Nat := if condition then 0 else 1

/-- The score of the manifest with these members, at most four. -/
def metadataOf (manifest : Entries Json) : Nat :=
  let has (name : String) := (Json.member name manifest).isTruthy
  pointUnless (has "author") + pointUnless (hasDeveloperMail manifest) +
  pointUnless (has "privacy_policy") + pointUnless (has "homepage_url")

/-- The metadata score of a manifest. -/
def metadata (manifest : Json) : Except Json.Misuse Nat := do
  .ok (metadataOf (← manifest.members))

end ExtensionAudit.Score
