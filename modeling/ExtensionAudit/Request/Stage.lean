import ExtensionAudit.Json.Printer

/-!
How far a request is. A record of it keeps the stages in the order in which they were
entered, the identifier once it is known, the last failure, and how often the extraction
directory was cleaned up.
-/

namespace ExtensionAudit

/-- A stage of a request. -/
inductive Stage
  | pending
  | resolved
  | fetched
  | parsed
  | extracted
  | analyzed
  | responded
  | failed
deriving DecidableEq

namespace Stage

/-- What a stage is called. -/
def name : Stage → Text
  | .pending => "pending"
  | .resolved => "resolved"
  | .fetched => "fetched"
  | .parsed => "parsed"
  | .extracted => "extracted"
  | .analyzed => "analyzed"
  | .responded => "responded"
  | .failed => "failed"

/-- Every stage, in the order in which a request goes through them. -/
def all : List Stage :=
  [.pending, .resolved, .fetched, .parsed, .extracted, .analyzed, .responded, .failed]

/-- The stage that a value names. -/
def ofJson? : Json → Option Stage
  | .text t => all.find? fun stage => stage.name == t
  | _ => none

/-- What is said of a value that names no stage. -/
def unknownMessage (value : Json) : Text :=
  value.quoted ++ " is not a valid PipelineStage"

end Stage

/-- The record of a request. -/
structure Record (ε : Type) where
  entered : List Stage
  identifier : Option Text
  error : Option ε
  cleanups : Nat

namespace Record

variable {ε : Type}

/-- The record of a request that has not begun. -/
def fresh : Record ε := ⟨[], none, none, 0⟩

/-- The stage entered last. -/
def stage (record : Record ε) : Stage := record.entered.getLastD .pending

/-- Enters a stage. -/
def advance (stage : Stage) (record : Record ε) : Record ε :=
  { record with entered := record.entered ++ [stage] }

/-- Notes a failure and enters the stage of failure. -/
def fail (error : ε) (record : Record ε) : Record ε :=
  { record with error := some error }.advance .failed

/-- Notes that the extraction directory was cleaned up. -/
def cleanedUp (record : Record ε) : Record ε :=
  { record with cleanups := record.cleanups + 1 }

end Record

end ExtensionAudit
