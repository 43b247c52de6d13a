import ExtensionAudit.Disk.Chore

/-!
A directory for the time that something takes. It is new, and it is removed whatever
comes of its use; after that, whoever asked for it is told once. Nobody is told if it is
too deep to be removed.
-/

namespace ExtensionAudit.Workspace

/-- A use that is over: what came of it, unless the removal was given up; what it left
on the disk; and for every notice whether the directory was still there. -/
structure Use (α ε : Type) where
  outcome : Option (Except ε α)
  disk : Disk
  notices : List Bool

/-- Removes a directory with everything below it, so many levels down, and says whether
that was enough. That nothing is there is no fault. -/
def removeTree (levels : Nat) (disk : Disk) (directory : Path) : Bool × Disk :=
  Chore.finish (Chore.start levels disk directory) disk

/-- Uses a directory. -/
def use {α ε : Type} (levels : Nat) (directory : Path) (isNotified : Bool) (disk : Disk)
    (body : Disk → Except ε α × Disk) : Use α ε :=
  let (outcome, disk) := body (disk.put directory.names .directory)
  match removeTree levels disk directory with
  | (true, disk) =>
    ⟨some outcome, disk, if isNotified then [disk.isPresent directory] else []⟩
  | (false, disk) => ⟨none, disk, []⟩

end ExtensionAudit.Workspace
