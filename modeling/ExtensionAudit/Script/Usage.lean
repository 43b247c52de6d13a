import ExtensionAudit.Json.Basic
import ExtensionAudit.Script.ChromeApi
import ExtensionAudit.Script.DataHandling

/-!
What the scripts of an extension use, as the report shows it.
-/

namespace ExtensionAudit.Script

/-- The interfaces and the data handling of a set of scripts. -/
structure Usage where
  chromeApis : Entries (List Text)
  dataHandling : Entries (Entries Nat)
deriving DecidableEq

/-- Scans every script. -/
def usage (files : Entries Text) : Usage := ⟨chromeApis files, dataHandling files⟩

/-- The interfaces as a document. -/
def chromeApisJson (apis : Entries (List Text)) : Json :=
  .object (apis.map fun (name, found) => (name, .array (found.map .text)))

/-- The data handling as a document. -/
def dataHandlingJson (handling : Entries (Entries Nat)) : Json :=
  .object (handling.map fun (name, counts) =>
    (name, .object (counts.map fun (category, count) => (category, .int count))))

/-- The usage as a document. -/
def Usage.toJson (usage : Usage) : Json :=
  .object [
    ("chromeAPIUsage", chromeApisJson usage.chromeApis),
    ("dataHandling", dataHandlingJson usage.dataHandling)]

end ExtensionAudit.Script
