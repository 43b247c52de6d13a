import ExtensionAudit.Lint
import ExtensionAudit.Tool.Run

/-!
What the tools write. The scanner writes the list of its findings, in newer versions
within an object; the linter writes an array with an element for each file, or nothing
at all.
-/

namespace ExtensionAudit.Tool

/-- Reads an output as a document. -/
def document (tool : Tool) (output : Text) : Except Fault Json :=
  (Json.read output).mapError (.malformed tool.name)

/-- The findings in the output of the scanner. -/
def findings (output : Text) : Except Fault (List Json) := do
  match ← document .retire output with
  | .array entries => .ok entries
  | .object members =>
    let data := Json.member "data" members
    if !data.isTruthy then .ok []
    else match data with
      | .array entries => .ok entries
      | _ => .error .dataNotList
  | _ => .error .notObject

/-- The summary of the output of the linter. -/
def lintSummary (output : Text) : Except Fault Lint.Summary := do
  if Text.trim output == [] then .ok .empty
  else
    match ← document .eslint output with
    | .array results => (Lint.summarize (.array results)).mapError .misuse
    | _ => .error .notArray

end ExtensionAudit.Tool
