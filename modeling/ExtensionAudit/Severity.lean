import ExtensionAudit.Json.Printer

/-!
How severe a message must be to be logged. The level is given by its name in letters of
either size; an unknown name stands for the level of plain information.
-/

namespace ExtensionAudit.Severity

/-- The levels by their names. -/
def levels : List (Text × Nat) := [
  ("CRITICAL", 50), ("FATAL", 50), ("ERROR", 40), ("WARNING", 30),
  ("WARN", 30), ("INFO", 20),
  ("DEBUG", 10), ("NOTSET", 0)]

/-- The level of plain information. -/
def information : Nat := 20

/-- A name that stands for a layout of messages and for no level. -/
def layoutName : Text := "BASIC_FORMAT"

/-- The layout of that name. -/
def layout : Text := "%(levelname)s:%(name)s:%(message)s"

/-- A layout was given where a level is wanted. -/
inductive Fault
  | notLevel
deriving DecidableEq

/-- The capital of a letter whose capital is an ASCII letter: of the ASCII letters, the
dotless i and the long s. Other characters stay as they are. -/
def capital (c : CodePoint) : CodePoint :=
  if c.isBetween 97 122 then CodePoint.ofNat (c.val - 32)
  else if c.val == 0x131 then 'I'
  else if c.val == 0x17F then 'S'
  else c

/-- The level that a value names. -/
def ofJson (value : Json) : Except Fault Nat :=
  let name := value.shown.map capital
  if name == layoutName then .error .notLevel
  else .ok ((levels.lookup name).getD information)

/-- How a log is set up: from which level on messages are written, and to how many
places. -/
structure Log where
  level : Nat
  handlers : Nat
deriving DecidableEq

/-- Sets up a log with a single place. -/
def log (value : Json) : Except Fault Log := do .ok ⟨← ofJson value, 1⟩

/-- What is said of a layout that is given for a level. -/
def Fault.message : Fault → Text
  | .notLevel => "Unknown level: " ++ Text.quoted layout

end ExtensionAudit.Severity
