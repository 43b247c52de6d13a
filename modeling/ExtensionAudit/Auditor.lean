import ExtensionAudit.Fetch
import ExtensionAudit.Platform
import ExtensionAudit.Settings.Basic
import ExtensionAudit.Tool.Output
import ExtensionAudit.Tool.Behavior

/-!
An auditor: the terms on which packages are fetched, the commands of the tools with
their time limit, whether the tools are to run at all, and what all of it runs on. It
answers any number of requests and keeps nothing of them.
-/

namespace ExtensionAudit

/-- What all requests share. The lint rules are given by their path. -/
structure Auditor where
  fetching : Fetch.Terms
  commands : Tool → List Text
  toolLimit : Binary64
  rules : Text
  usesTools : Bool
  platform : Platform

namespace Auditor

/-- The auditor of the settings. Whether the tools are to run may be said apart from
them. -/
def ofSettings (settings : Settings) (rules : Text) (usesTools : Option Bool)
    (platform : Platform) :
    Auditor where
  fetching := ⟨settings .maxDownloadBytes, .float (settings .downloadTimeout),
    settings .prodversion⟩
  commands
    | .retire => settings .retireCommand
    | .eslint => settings .eslintCommand
  toolLimit := settings .toolTimeout
  rules := rules
  usesTools := usesTools.getD (settings .externalScannersEnabled)
  platform := platform

/-- How a tool is called for a directory. -/
def invocation (auditor : Auditor) (directory : Path) (tool : Tool) : Tool.Invocation :=
  tool.invocation (auditor.commands tool) directory auditor.rules

/-- What the run of a tool is given. -/
def terms (auditor : Auditor) (directory : Path) (tool : Tool) : Tool.Terms where
  name := tool.name
  command := (auditor.invocation directory tool).command
  limit := auditor.toolLimit
  accepted := tool.acceptedCodes
  allowsDiagnostics := tool.allowsDiagnostics

/-- Runs a tool on a directory, with nothing to cancel it. -/
def run (auditor : Auditor) (directory : Path) (tool : Tool)
    (behavior : Tool.Behavior) : Tool.Run :=
  behavior.run (auditor.terms directory tool)

end Auditor

end ExtensionAudit
