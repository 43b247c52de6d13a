import ExtensionAudit.Disk.Basic
import ExtensionAudit.Disk.Spelling
import ExtensionAudit.Settings.Coercion
import ExtensionAudit.Text.Lines

/-!
Loading the settings. A configuration file goes over the defaults, and the environment
over the file. Everything that is present is checked, also what is overridden
afterwards.
-/

namespace ExtensionAudit.Settings

/-- Why settings cannot be loaded. The faults from `encoding` on are not about one
setting's form. -/
inductive Fault
  | absent (path : Path)
  | unreadable (path : Path) (fault : SystemFault)
  | malformed (path : Path) (problem : Json.Problem) (place : Json.Place)
  | notObject (path : Path)
  | notSection (part : Section) (path : Path)
  | unfit (setting : Setting) (fault : Coercion.Fault)
  | encoding (fault : Utf8.Fault)
  | tooManyDigits (count : Nat)
  | overflow (fault : Coercion.Fault)
  | unreachable (fault : SystemFault)
deriving DecidableEq

/-- Which configuration file is asked for: the usual one if it is there, the usual one,
which has to be there, or another one. -/
inductive Choice
  | optional
  | usual
  | file (path : Path)
deriving DecidableEq

/-- Does the file have to be there? -/
def Choice.isRequired : Choice → Bool
  | .optional => false
  | _ => true

/-- The configuration file that is usually read. -/
def usualPath : Text := "config.json"

/-- The environment variable that names another one. -/
def pathVariable : Text := Setting.variablePrefix ++ "CONFIG"

/-- The file to read. The environment can name the usual one. -/
def configPath (choice : Choice) (environment : Entries Text) : Path :=
  match choice with
  | .file path => path
  | _ => Path.ofText ((Entries.get? pathVariable environment).getD usualPath)

/-- Reads the octets of a configuration file. -/
def ofBytes (path : Path) (bytes : Bytes) : Except Fault (List (Text × Json)) := do
  let text ← (Utf8.decode bytes).mapError .encoding
  match Json.read (Text.universalNewlines text) with
  | .ok (.object members) => .ok members
  | .ok _ => .error (.notObject path)
  | .error (.malformed problem place) => .error (.malformed path problem place)
  | .error (.tooManyDigits count) => .error (.tooManyDigits count)

/-- Reads the configuration file. One that is absent has no members, unless it has to be
there. -/
def readConfig (isRequired : Bool) (path : Path) (disk : Disk) :
    Except Fault (List (Text × Json)) := do
  match if path.misspelling?.isSome then .error .missing else disk.status path with
  | .ok _ => ofBytes path (← (disk.read path).mapError (.unreadable path))
  | .error refusal =>
    if refusal == .missing || refusal == .notDirectory then
      if isRequired then .error (.absent path) else .ok []
    else .error (.unreachable ⟨refusal, path.text⟩)

/-- Gives a setting a value from a document. -/
def assign (s : Setting) (value : Json) (settings : Settings) : Except Fault Settings :=
  match Coercion.read s.shape value with
  | .ok value => .ok (settings.put s value)
  | .error fault =>
    if fault == .infinite || fault == .tooLarge then .error (.overflow fault)
    else .error (.unfit s fault)

/-- Gives a setting its value among named ones, if it has one there. -/
def assignFrom (values : Text → Option Json) (key : Setting → Text) (settings : Settings)
    (s : Setting) : Except Fault Settings :=
  match values (key s) with
  | some value => assign s value settings
  | none => .ok settings

/-- Takes the settings of a section from a configuration. -/
def applySection (path : Path) (config : List (Text × Json)) (settings : Settings)
    (s : Section) :
    Except Fault Settings :=
  match Entries.get? s.name config with
  | none => .ok settings
  | some (.object values) =>
    s.settings.foldlM
      (assignFrom (fun key => Entries.get? key values) Setting.name) settings
  | some _ => .error (.notSection s path)

/-- Takes settings from a configuration. -/
def applyConfig (path : Path) (config : List (Text × Json)) (settings : Settings) :
    Except Fault Settings :=
  Section.all.foldlM (applySection path config) settings

/-- Takes settings from the environment. -/
def applyEnvironment (environment : Entries Text)
    (settings : Settings) : Except Fault Settings :=
  Setting.all.foldlM
    (assignFrom (fun key => (Entries.get? key environment).map .text)
      Setting.environmentName) settings

/-- Loads the settings. -/
def load (choice : Choice) (environment : Entries Text) (disk : Disk) :
    Except Fault Settings := do
  let path := configPath choice environment
  let config ← readConfig choice.isRequired path disk
  applyEnvironment environment (← applyConfig path config default)

/-- What is said of settings that cannot be loaded. -/
def Fault.message : Fault → Text
  | .absent path => "Config file not found: " ++ path.text
  | .unreadable path fault => "Failed to read " ++ path.text ++ ": " ++ fault.message
  | .malformed path problem place =>
    "Failed to read " ++ path.text ++ ": " ++
      (Json.ReadFault.malformed problem place).message
  | .notObject path => path.text ++ " must contain a JSON object"
  | .notSection s path =>
    "Section '" ++ s.name ++ "' in " ++ path.text ++ " must be an object"
  | .unfit setting fault => "Invalid value for " ++ setting.name ++ ": " ++ fault.message
  | .encoding fault => fault.message
  | .tooManyDigits count => (Json.ReadFault.tooManyDigits count).message
  | .overflow fault => fault.message
  | .unreachable fault => fault.message

end ExtensionAudit.Settings
