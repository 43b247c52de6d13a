import ExtensionAudit.Proofs.Archive.Extraction
import ExtensionAudit.Proofs.Package
import Mathlib.Algebra.GroupWithZero.Nat

/-!
# Archive — writing one

An archive as a packer writes it that stores its files as they are.
-/

namespace ExtensionAudit.Archive

/-- The fields that the header of a member shares with its entry in the directory. -/
def storedFields (name : Text) (octets : Bytes) : Bytes :=
  Bytes.ofNatLE 2 20 ++ Bytes.ofNatLE 2 (2 ^ 11) ++ Bytes.ofNatLE 2 0 ++
    Bytes.ofNatLE 4 0 ++
    Bytes.ofNatLE 4 (checksumOf octets) ++ Bytes.ofNatLE 4 octets.length ++
    Bytes.ofNatLE 4 octets.length ++ Bytes.ofNatLE 2 (Utf8.encode name).length ++
      Bytes.ofNatLE 2 0

/-- The members of an archive from an offset on, and the directory of these. -/
def storedParts : Nat → List (Text × Bytes) → Bytes × Bytes
  | _, [] => ([], [])
  | offset, (name, octets) :: rest =>
    let fields := storedFields name octets
    let member := headerMagic ++ fields ++ Utf8.encode name ++ octets
    let (members, directory) := storedParts (offset + member.length) rest
    (member ++ members,
      entryMagic ++ Bytes.ofNatLE 2 20 ++ fields ++ Bytes.ofNatLE 2 0 ++
        Bytes.ofNatLE 2 0 ++
        Bytes.ofNatLE 2 0 ++ Bytes.ofNatLE 4 0 ++ Bytes.ofNatLE 4 offset ++
          Utf8.encode name ++
        directory)

/-- An archive of files that are stored as they are. -/
def stored (files : List (Text × Bytes)) : Bytes :=
  let (members, directory) := storedParts 0 files
  members ++ directory ++ endMagic ++ Bytes.ofNatLE 2 0 ++ Bytes.ofNatLE 2 0 ++
    Bytes.ofNatLE 2 files.length ++ Bytes.ofNatLE 2 files.length ++
    Bytes.ofNatLE 4 directory.length ++ Bytes.ofNatLE 4 members.length ++
      Bytes.ofNatLE 2 0

end ExtensionAudit.Archive
