import ExtensionAudit.Archive.Entry
import ExtensionAudit.Archive.Inflate
import ExtensionAudit.Disk.Basic
import ExtensionAudit.Platform

/-!
What can be wrong with an archive. It may be damaged, ask for a feature that is not
supported, or not be writable, and then it counts as not writable, too, that a library
refuses its data in the words of the system. Beside these stand the faults that are not
about the archive's form: a name that is not text, a header before the first octet or
beyond all reach, a member that needs a password, a member without a name, data that a
library refuses in its own words, and directories that are too deep to be made.
-/

namespace ExtensionAudit.Archive

/-- A field of an entry that may be too wide for its place in the directory. -/
inductive WideField
  | size
  | packedSize
  | offset
deriving DecidableEq

/-- How an archive is damaged. -/
inductive Damage
  | notArchive
  | manyDisks
  | directoryOffset
  | directoryEnd
  | directoryMagic
  | extraField (tag size : Nat)
  | wideField (field : WideField)
  | headerEnd
  | headerMagic
  | names (listed : Text) (header : Bytes)
  | overlap (name : Text)
  | dataEnd
  | checksum (name : Text)
  | stream (problem : StreamProblem)
deriving DecidableEq

/-- A feature that is not supported. -/
inductive Feature
  | version (tenths : Nat)
  | patchedData
  | strongEncryption
  | method
deriving DecidableEq

/-- Why an archive cannot be extracted. -/
inductive Fault
  | corrupt (damage : Damage)
  | unsupported (feature : Feature)
  | unwritable (fault : SystemFault)
  | nameEncoding (fault : Utf8.Fault)
  | beforeStart (offset : Int)
  | beyondReach
  | encrypted (entry : Entry)
  | nameless
  | undecodable (problem : Text)
  | lzma (problem : Text)
  | tooDeep
deriving DecidableEq

/-- What messages call a field. -/
def WideField.message : WideField → Text
  | .size => "File size"
  | .packedSize => "Compress size"
  | .offset => "Header offset"

/-- What is said of an archive with this damage. -/
def Damage.message : Damage → Text
  | .notArchive => "File is not a zip file"
  | .manyDisks => "zipfiles that span multiple disks are not supported"
  | .directoryOffset => "Bad offset for central directory"
  | .directoryEnd => "Truncated central directory"
  | .directoryMagic => "Bad magic number for central directory"
  | .extraField tag size =>
    "Corrupt extra field " ++ Text.hex 4 tag ++ " (size=" ++ Text.ofNat size ++ ")"
  | .wideField field => "Corrupt zip64 extra field. " ++ field.message ++ " not found."
  | .headerEnd => "Truncated file header"
  | .headerMagic => "Bad magic number for file header"
  | .names listed header =>
    "File name in directory " ++ Text.quoted listed ++ " and header " ++
      Text.quotedBytes header ++
    " differ."
  | .overlap name => "Overlapped entries: " ++ Text.quoted name ++ " (possible zip bomb)"
  | .dataEnd => []
  | .checksum name => "Bad CRC-32 for file " ++ Text.quoted name
  | .stream problem => "Error -3 while decompressing data: " ++ problem.message

/-- What is said of a feature that is not supported. -/
def Feature.message : Feature → Text
  | .version tenths =>
    "zip file version " ++ Text.ofNat (tenths / 10) ++ "." ++ Text.ofNat (tenths % 10)
  | .patchedData => "compressed patched data (flag bit 5)"
  | .strongEncryption => "strong encryption (flag bit 6)"
  | .method => "That compression method is not supported"

/-- What is said of an extraction that fails. -/
def Fault.message : Fault → Text
  | .corrupt damage => "Corrupt extension archive: " ++ damage.message
  | .unsupported feature => "Unsupported extension archive: " ++ feature.message
  | .unwritable fault => "Failed to write archive contents: " ++ fault.message
  | .nameEncoding fault => fault.message
  | .beforeStart offset => "negative seek value " ++ Text.ofInt offset
  | .beyondReach => "Python int too large to convert to C ssize_t"
  | .encrypted entry =>
    "File " ++ entry.description ++ " is encrypted, password required for extraction"
  | .nameless => "string index out of range"
  | .undecodable problem => "Failed to write archive contents: " ++ problem
  | .lzma problem => problem
  | .tooDeep => Platform.depthMessage

end ExtensionAudit.Archive
