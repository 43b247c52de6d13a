import ExtensionAudit.Text.Basic

/-!
The checksum of archive members: the cyclic redundancy check of 32 bits over the
reflected polynomial.
-/

namespace ExtensionAudit.Archive

/-- Shifts one bit out of the register. -/
def checksumBit (register : UInt32) : UInt32 :=
  if register &&& 1 == 1 then (register >>> 1) ^^^ 0xEDB88320 else register >>> 1

/-- Shifts `count` bits out of the register. -/
def checksumBits : Nat → UInt32 → UInt32
  | 0, register => register
  | count + 1, register => checksumBits count (checksumBit register)

/-- Takes one octet into the register. -/
def checksumOctet (register : UInt32) (b : UInt8) : UInt32 :=
  checksumBits 8 (register ^^^ b.toUInt32)

/-- The checksum of octets. -/
def checksumOf (bytes : Bytes) : Nat :=
  ((bytes.foldl checksumOctet 0xFFFFFFFF) ^^^ 0xFFFFFFFF).toNat

end ExtensionAudit.Archive
