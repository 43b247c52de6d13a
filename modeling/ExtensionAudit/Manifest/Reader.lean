import ExtensionAudit.Disk.Basic
import ExtensionAudit.Json.Reader
import ExtensionAudit.Text.Lines

/-!
Reading the manifest of an extension from the directory it was extracted to. Whatever
the file holds, the outcome is an object or a fault. Before the file is read it is
looked up, and that the system refuses to look it up is a fault of its own.
-/

namespace ExtensionAudit.Manifest

/-- Why a manifest cannot be read. -/
inductive Fault
  | absent (directory : Path)
  | unreachable (fault : SystemFault)
  | unreadable (fault : SystemFault)
  | encoding (fault : Utf8.Fault)
  | malformed (fault : Json.ReadFault)
  | notObject
deriving DecidableEq

/-- The name of the file. -/
def fileName : Text := "manifest.json"

/-- Reads the octets of a manifest: UTF-8 after at most one byte order mark, and an
object. -/
def ofBytes (bytes : Bytes) : Except Fault (List (Text × Json)) := do
  let text ← (Utf8.decode (Utf8.dropSignature bytes)).mapError .encoding
  match ← (Json.read (Text.universalNewlines text)).mapError .malformed with
  | .object members => .ok members
  | _ => .error .notObject

/-- Reads the manifest in a directory. -/
def read (disk : Disk) (directory : Path) : Except Fault (List (Text × Json)) := do
  let path := directory.child fileName
  match disk.status path with
  | .ok _ => ofBytes (← (disk.read path).mapError .unreadable)
  | .error refusal =>
    if refusal == .missing || refusal == .notDirectory then .error (.absent directory)
    else .error (.unreachable ⟨refusal, path.text⟩)

/-- What is said of a manifest that cannot be read. -/
def Fault.message : Fault → Text
  | .absent directory => fileName ++ " not found in " ++ directory.text
  | .unreachable fault => fault.message
  | .unreadable fault => "Failed to read manifest: " ++ fault.message
  | .encoding fault => "Failed to read manifest: " ++ fault.message
  | .malformed fault => "Failed to read manifest: " ++ fault.message
  | .notObject => fileName ++ " must contain a JSON object"

end ExtensionAudit.Manifest
