import ExtensionAudit.Disk.Search
import ExtensionAudit.Script.Files

/-!
Scripts by a pattern. What their paths end in may have the signs of a pattern in it;
without any it is just the ending of a name.
-/

namespace ExtensionAudit.Script

/-- Why scripts cannot be had by a pattern. -/
inductive SearchFault
  | search (fault : Search.Fault)
  | script (fault : Fault)
deriving DecidableEq

/-- Is the ending just that of a name? -/
def isPlain (suffix : Text) : Bool :=
  !suffix.any fun c => Wildcard.isSign c || Path.isSlash c

/-- The files below a directory, no more than so many levels down, whose paths end in a
way, which may be a pattern. -/
def matching (levels : Nat) (suffix : Text) (disk : Disk) (directory : Path) :
    Except SearchFault (Entries Text) :=
  if isPlain suffix then (files levels suffix disk directory).mapError .script
  else do
    let found ← (Search.files ("*" ++ suffix) disk directory).mapError .search
    if disk.isDeeper levels directory then .error (.script .tooDeep)
    else (readAll disk directory found).mapError .script

/-- What is said of scripts that cannot be had. -/
def SearchFault.message : SearchFault → Text
  | .search fault => fault.message
  | .script fault => fault.message

end ExtensionAudit.Script
