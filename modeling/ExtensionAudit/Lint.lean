import ExtensionAudit.Json.Printer

/-!
The summary of a linter's report: how many messages there are, how many of them are
errors, and how often each rule was broken. A message without a rule counts under the
name `null`.
-/

namespace ExtensionAudit.Lint

/-- The counts over all messages. -/
structure Summary where
  total : Nat
  errors : Nat
  warnings : Nat
  byRule : Entries Nat
deriving DecidableEq

/-- The summary of no messages. -/
def Summary.empty : Summary := ⟨0, 0, 0, []⟩

/-- The rule that a message reports. -/
def ruleName : Json → Text
  | .null => "null"
  | rule => rule.shown

/-- Adds the message with these members. -/
def addMessageOf (summary : Summary) (message : Entries Json) : Summary :=
  let isError := (Json.member "severity" message).equalsInt 2
  { total := summary.total + 1
    errors := summary.errors + if isError then 1 else 0
    warnings := summary.warnings + if isError then 0 else 1
    byRule := summary.byRule.bump (ruleName (Json.member "ruleId" message)) }

/-- Adds a message. -/
def addMessage (summary : Summary) (message : Json) : Except Json.Misuse Summary := do
  .ok (addMessageOf summary (← message.members))

/-- Adds the messages of a file; what is not an object is passed over, and so are
messages that are falsy as a whole. -/
def addFile (summary : Summary) : Json → Except Json.Misuse Summary
  | .object file =>
    let messages := Json.member "messages" file
    if messages.isTruthy
      then do (← messages.items).foldlM addMessage summary else .ok summary
  | _ => .ok summary

/-- Summarises a report: what an iteration over it passes, one after another. -/
def summarize (report : Json) : Except Json.Misuse Summary := do
  (← report.items).foldlM addFile .empty

/-- The summary as a document. -/
def Summary.toJson (summary : Summary) : Json :=
  .object [
    ("totalIssues", .int summary.total),
    ("errors", .int summary.errors),
    ("warnings", .int summary.warnings),
    ("commonIssues",
      .object (summary.byRule.map fun (rule, count) => (rule, .int count)))]

end ExtensionAudit.Lint
