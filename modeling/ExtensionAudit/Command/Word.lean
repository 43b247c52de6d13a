import ExtensionAudit.Text.Digit

/-!
The words of a command line, each by itself. A word is a switch when it begins with a
hyphen and means one; the long name of a switch may be cut short as long as it is still
the name of only one. A word that begins with a hyphen and cannot be meant as a switch,
such as a negative number, is plain.
-/

namespace ExtensionAudit.Command

/-- A switch. -/
inductive Switch
  | help
  | crx
  | config
  | output
  | fast
  | logLevel
deriving DecidableEq

namespace Switch

/-- The long name of a switch. -/
def name : Switch → Text
  | .help => "--help"
  | .crx => "--crx"
  | .config => "--config"
  | .output => "--output"
  | .fast => "--fast"
  | .logLevel => "--log-level"

/-- The short name of the switch for help, the only one that has a short name. -/
def shortName : Text := "-h"

/-- What messages call a switch: all its names. -/
def names : Switch → Text
  | .help => shortName ++ "/" ++ Switch.name .help
  | s => s.name

/-- Every switch, in the order in which messages list them. -/
def all : List Switch := [.help, .crx, .config, .output, .fast, .logLevel]

/-- Does a switch have a value? -/
def hasValue : Switch → Bool
  | .help => false
  | .fast => false
  | _ => true

/-- The switch of a name that is not cut short. -/
def ofName? (name : Text) : Option Switch :=
  if name == shortName then some .help else all.find? fun s => s.name == name

/-- The switches whose long names begin in this way. -/
def candidates (start : Text) : List Switch :=
  all.filter fun s => Text.startsWith start s.name

end Switch

/-- A word of a command line. Letters may follow the short name of a switch, with an
equals sign between or without one. -/
inductive Word
  | plain (t : Text)
  | divider
  | switch (s : Switch) (value : Option Text)
  | cluster (letters : Text)
  | unknown (t : Text)
deriving DecidableEq

/-- A word that could be the beginning of several switches. -/
structure Ambiguity where
  word : Text
  candidates : List Switch
deriving DecidableEq

namespace Word

/-- The word after which no word is a switch. -/
def dividerText : Text := "--"

/-- The parts of a text before and after its first equals sign. -/
def cut (t : Text) : Text × Option Text :=
  let name := t.takeWhile fun c : CodePoint => c != '='
  match t.drop name.length with
  | [] => (name, none)
  | _ :: value => (name, some value)

/-- Is there a digit, and nothing but digits? -/
def isNumber (t : Text) : Bool := t != [] && t.all fun c => c.decimalValue?.isSome

/-- Is the text a negative number, with or without a fraction? It may stand on a line of
its own. -/
def isNegative (t : Text) : Bool :=
  match t with
  | sign :: rest =>
    let digits := if rest.getLast? == some ('\n' : CodePoint) then rest.dropLast else rest
    let whole := digits.takeWhile fun c : CodePoint => c != '.'
    sign == '-' && match digits.drop whole.length with
      | [] => isNumber whole
      | _ :: fraction => (whole == [] || isNumber whole) && isNumber fraction
  | [] => false

/-- A word that begins with a hyphen and is the name of no switch. -/
def ofOther (t : Text) : Word :=
  if isNegative t || Text.contains " " t then .plain t else .unknown t

/-- Reads a word that stands before the divider. -/
def ofText (t : Text) : Except Ambiguity Word :=
  match t with
  | first :: second :: _ =>
    let (name, value) := cut t
    if first != '-' then .ok (.plain t)
    else match Switch.ofName? t, Switch.ofName? name with
      | some s, _ => .ok (.switch s none)
      | none, some s =>
        let letters := value.getD []
        .ok (if name == Switch.shortName && letters != [] then .cluster letters
          else .switch s value)
      | none, none =>
        if second == '-' then
          match Switch.candidates name with
          | [] => .ok (ofOther t)
          | [s] => .ok (.switch s value)
          | several => .error ⟨t, several⟩
        else match Text.dropStart? Switch.shortName t with
          | some letters => .ok (.cluster letters)
          | none => .ok (ofOther t)
  | _ => .ok (.plain t)

/-- Reads the words of a command line. -/
def ofTexts : List Text → Except Ambiguity (List Word)
  | [] => .ok []
  | t :: rest => do
    if t == dividerText then .ok (.divider :: rest.map .plain)
    else .ok ((← ofText t) :: (← ofTexts rest))

end Word

end ExtensionAudit.Command
