import ExtensionAudit.Manifest.Facts
import ExtensionAudit.Report
import ExtensionAudit.Score.Library
import ExtensionAudit.Score.Metadata
import ExtensionAudit.Score.Permission
import ExtensionAudit.Score.Policy
import ExtensionAudit.Script.Usage
import ExtensionAudit.Lint

/-!
Everything that is read off a manifest alone, and the report that it becomes part of.
-/

namespace ExtensionAudit

/-- The scores of a manifest and its facts. -/
structure ManifestScores where
  metadata : Nat
  policy : Nat × Score.PolicyDetails
  permissions : Nat × Entries Text
  facts : Manifest.Facts

/-- Scores a manifest. -/
def ManifestScores.ofJson (manifest : Json) : Except Json.Misuse ManifestScores := do
  let metadata ← Score.metadata manifest
  let policy := Score.policy manifest
  let permissions ← Score.permissions manifest
  let facts ← Manifest.facts manifest
  .ok { metadata, policy, permissions, facts }

/-- The report on a manifest, from its scores, the score of the libraries, the usage of
the scripts and the summary of the linter. -/
def Report.ofParts (manifest : Json) (scores : ManifestScores)
    (libraries : Score.LibraryScore) (usage : Script.Usage)
    (lint : Lint.Summary) : Except Json.Misuse Report :=
  compose manifest (.int scores.metadata)
    (.int scores.policy.1, scores.policy.2.toJson)
    (.int scores.permissions.1, Score.permissionDetails scores.permissions.2)
    (.int libraries.score, libraries.details)
    scores.facts.toJson usage.toJson lint.toJson

end ExtensionAudit
