import ExtensionAudit.Text.Basic

/-!
Extension packages. A package is a header in front of an archive: a magic number, a
version, and according to the version two lengths with a key and a signature, or one
length with a signed header. Nothing is verified; the archive is what follows.
-/

namespace ExtensionAudit.Package

/-- Why octets are not a package. -/
inductive Fault
  | notPackage
  | truncated (offset : Nat)
  | unknownVersion (version : Nat)
deriving DecidableEq

/-- The first four octets of every package, `Cr24`. -/
def magic : Bytes := [0x43, 0x72, 0x32, 0x34]

/-- The number of four octets at an offset. -/
def word (bytes : Bytes) (offset : Nat) : Except Fault Nat :=
  if bytes.length < offset + 4 then .error (.truncated offset)
  else .ok (Bytes.toNatLE (Bytes.slice offset 4 bytes))

/-- Where the archive starts, which may be past the end. -/
def payloadOffset (bytes : Bytes) : Except Fault Nat :=
  if !magic.isPrefixOf bytes then .error .notPackage
  else do
    let version ← word bytes 4
    if version == 2 then
      let keyLength ← word bytes 8
      let signatureLength ← word bytes 12
      .ok (16 + keyLength + signatureLength)
    else if version == 3 then
      let headerLength ← word bytes 8
      .ok (12 + headerLength)
    else .error (.unknownVersion version)

/-- The archive in a package. -/
def payload (bytes : Bytes) : Except Fault Bytes := do
  .ok (bytes.drop (← payloadOffset bytes))

/-- What is said of octets that are no package. -/
def Fault.message : Fault → Text
  | .notPackage => "Not a valid CRX file"
  | .truncated offset =>
    "Truncated CRX header: need 4 bytes at offset " ++ Text.ofNat offset
  | .unknownVersion version => "Unsupported CRX version: " ++ Text.ofNat version

end ExtensionAudit.Package
