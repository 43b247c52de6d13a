import ExtensionAudit.Disk.Basic
import ExtensionAudit.Disk.Spelling
import ExtensionAudit.Json.Reader

/-!
External tools: a scanner for known vulnerabilities of libraries and a linter. Each is a
command with blanks for the directory to look at and for the lint rules, and is judged
by its exit code, by what it says on its error stream, and by its output.
-/

namespace ExtensionAudit

/-- A tool. -/
inductive Tool
  | retire
  | eslint
deriving DecidableEq

namespace Tool

/-- What a tool is called. -/
def name : Tool → Text
  | .retire => "retire"
  | .eslint => "eslint"

/-- The exit codes of a run that succeeded. The scanner has one more for a run with
findings, and so has the linter. -/
def acceptedCodes : Tool → List Int
  | .retire => [0, 13]
  | .eslint => [0, 1]

/-- May the tool write to its error stream and succeed? The linter announces
deprecations there. -/
def allowsDiagnostics : Tool → Bool
  | .retire => false
  | .eslint => true

/-- Fills the blanks of a command. -/
def fill (template : List Text) (directory : Path) (rules : Text) : List Text :=
  template.map fun part =>
    Text.replace "\x7bconfig\x7d" rules (Text.replace "\x7bpath\x7d" directory.text part)

/-- How a tool is called: the command, the directory to run in if it is not the usual
one, and whether it is told to use flat configuration. -/
structure Invocation where
  command : List Text
  directory : Option Path
  usesFlatConfig : Bool
deriving DecidableEq

/-- How a tool is called for a directory. The linter runs in it, because its patterns
start there. -/
def invocation (tool : Tool) (template : List Text) (directory : Path)
    (rules : Text) : Invocation :=
  match tool with
  | .retire => ⟨fill template directory rules, none, false⟩
  | .eslint => ⟨fill template directory rules, some directory, true⟩

/-- Why a tool has no result. The last three are not about the tool. -/
inductive Fault
  | notStarted (name : Text) (fault : SystemFault)
  | overdue (name : Text) (limit : Binary64)
  | badExit (name : Text) (code : Int) (diagnostics : Text)
  | complaint (name : Text) (diagnostics : Text)
  | malformed (name : Text) (fault : Json.ReadFault)
  | notObject
  | dataNotList
  | notArray
  | noProgram
  | misspelt (misspelling : Path.Misspelling)
  | misuse (problem : Json.Misuse)
deriving DecidableEq

end Tool

end ExtensionAudit
