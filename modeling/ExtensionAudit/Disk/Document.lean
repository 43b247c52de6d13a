import ExtensionAudit.Disk.Basic
import ExtensionAudit.Disk.Spelling
import ExtensionAudit.Json.Printer

/-!
Documents on the disk. A document is written piece by piece, so that a piece that cannot
be written leaves those before it in the file.
-/

namespace ExtensionAudit

namespace Disk

/-- Makes a directory and those above it, unless they are there. -/
def makeDirectories (disk : Disk) (path : Path) : Disk × Except SystemFault Unit :=
  match disk.makeDirectory path with
  | .ok disk => (disk, .ok ())
  | .error fault =>
    if fault.refusal == .missing then
      if path.names = [] then (disk, .error fault)
      else
        match makeDirectories disk path.parent with
        | (disk, .error fault) => (disk, .error fault)
        | (disk, .ok ()) =>
          match disk.makeDirectory path with
          | .ok disk => (disk, .ok ())
          | .error fault =>
            (disk, if fault.refusal != .missing && disk.isDirectory path then .ok ()
              else .error fault)
    else (disk, if disk.isDirectory path then .ok () else .error fault)
termination_by path.names.length
decreasing_by
  have := List.length_pos_iff.2 ‹_›
  simp only [Path.parent, List.length_dropLast]
  omega

end Disk

namespace Document

/-- Why a document cannot be saved. -/
inductive SaveFault
  | spelling (misspelling : Path.Misspelling)
  | system (fault : SystemFault)
  | encoding (fault : Utf8.EncodingFault)
deriving DecidableEq

/-- The octets of the pieces that come before one that cannot be written. -/
def written : List Text → Bytes × Except SaveFault Unit
  | [] => ([], .ok ())
  | piece :: rest =>
    match Utf8.encodeStrict piece with
    | .error fault => ([], .error (.encoding fault))
    | .ok octets =>
      let (more, outcome) := written rest
      (octets ++ more, outcome)

/-- Puts octets in a file, in the place of what is there. -/
def put (octets : Bytes) (path : Path) (disk : Disk) : Except SaveFault Disk :=
  match path.misspelling? with
  | some misspelling => .error (.spelling misspelling)
  | none => (disk.write path octets).mapError .system

/-- Makes a directory and those above it, unless they are there. -/
def makeRoom (path : Path) (disk : Disk) : Disk × Except SaveFault Unit :=
  match path.misspelling? with
  | some misspelling => (disk, .error (.spelling misspelling))
  | none =>
    let (disk, outcome) := disk.makeDirectories path
    (disk, outcome.mapError .system)

/-- Saves a document, with the directories above its file. -/
def save (value : Json) (path : Path) (disk : Disk) : Disk × Except SaveFault Unit :=
  match makeRoom path.parent disk with
  | (disk, .error fault) => (disk, .error fault)
  | (disk, .ok ()) =>
    let (octets, outcome) := written value.pieces
    match put octets path disk with
    | .error fault => (disk, .error fault)
    | .ok disk => (disk, outcome)

/-- What is said of a document that is not saved. -/
def SaveFault.message : SaveFault → Text
  | .spelling misspelling => misspelling.message
  | .system fault => fault.message
  | .encoding fault => fault.message

end Document

end ExtensionAudit
