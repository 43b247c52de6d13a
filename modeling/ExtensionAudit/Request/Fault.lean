import ExtensionAudit.Archive.Fault
import ExtensionAudit.Fetch
import ExtensionAudit.Manifest.Reader
import ExtensionAudit.Package
import ExtensionAudit.Script.Files
import ExtensionAudit.Tool.Run

/-!
Why a request fails, and which kind of failure that is to a caller. The kinds are those
that a caller is told of, and what the system refuses without anybody saying for what; a
failure that none of them covers is untold.
-/

namespace ExtensionAudit

/-- Why a request fails. -/
inductive Fault
  | target
  | fetch (fault : Fetch.Fault)
  | package (fault : Package.Fault)
  | archive (fault : Archive.Fault)
  | manifest (fault : Manifest.Fault)
  | script (fault : Script.Fault)
  | tool (fault : Tool.Fault)
  | misuse (problem : Json.Misuse)
  | removal
  | cancelled
deriving DecidableEq

namespace Fault

/-- A kind of failure. -/
inductive Kind
  | invalidInput
  | fetch
  | format
  | extraction
  | analysis
  | externalTool
  | system
  | untold
  | cancelled
deriving DecidableEq

/-- The kind of a failure. -/
def kind : Fault → Kind
  | .target => .invalidInput
  | .fetch (.badLength _) => .untold
  | .fetch (.badSize _) => .untold
  | .fetch _ => .fetch
  | .package _ => .format
  | .archive (.corrupt _) => .extraction
  | .archive (.unsupported _) => .extraction
  | .archive (.unwritable _) => .extraction
  | .archive (.undecodable _) => .extraction
  | .archive _ => .untold
  | .manifest (.unreachable _) => .system
  | .manifest _ => .analysis
  | .script (.unreadable ..) => .extraction
  | .script .tooDeep => .untold
  | .tool .noProgram => .untold
  | .tool (.misspelt _) => .untold
  | .tool (.misuse _) => .untold
  | .tool _ => .externalTool
  | .misuse _ => .untold
  | .removal => .untold
  | .cancelled => .cancelled

/-- What is said of a request that fails. -/
def message : Fault → Text
  | .target => "Invalid or disallowed extension URL"
  | .fetch fault => fault.message
  | .package fault => fault.message
  | .archive fault => fault.message
  | .manifest fault => fault.message
  | .script fault => fault.message
  | .tool fault => fault.message
  | .misuse problem => problem.message
  | .removal => Platform.depthMessage
  | .cancelled => []

end Fault

end ExtensionAudit
