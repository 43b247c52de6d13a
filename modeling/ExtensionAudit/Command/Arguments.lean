import ExtensionAudit.Command.Word
import ExtensionAudit.Disk.Path
import ExtensionAudit.Text.Quoted

/-!
What a command line asks for: help, or an audit of a package from the store or at hand.
The words are taken in their order, so of several mistakes the first is reported, except
that a word which could mean several switches is found before any word is taken.
-/

namespace ExtensionAudit.Command

/-- The value of a switch. A divider in the place of a value leaves it blank. -/
inductive Given (α : Type)
  | absent
  | blank
  | value (a : α)
deriving DecidableEq

/-- The value, if there is one. -/
def Given.toOption : Given α → Option α
  | .value a => some a
  | _ => none

/-- What an audit is asked for with. -/
structure Arguments where
  target : Option Text
  crx : Given Path
  config : Given Path
  output : Given Path
  isFast : Bool
  logLevel : Given Text
deriving DecidableEq

/-- What a command line asks for. -/
inductive Order
  | help
  | audit (arguments : Arguments)
deriving DecidableEq

/-- Why a command line asks for nothing. -/
inductive UsageFault
  | ambiguous (ambiguity : Ambiguity)
  | noValue (s : Switch)
  | idleValue (s : Switch) (value : Text)
  | unrecognized (words : List Text)
  | noTarget
deriving DecidableEq

namespace Arguments

/-- What nothing but the name of the command asks for. -/
def none : Arguments := ⟨.none, .absent, .absent, .absent, false, .absent⟩

/-- The value that a text is for a switch. -/
def given (read : Text → α) (value : Text) : Given α :=
  if value == Word.dividerText then .blank else .value (read value)

/-- Takes the value of a switch. -/
def take (arguments : Arguments) (s : Switch) (value : Text) : Arguments :=
  match s with
  | .crx => { arguments with crx := given Path.ofText value }
  | .config => { arguments with config := given Path.ofText value }
  | .output => { arguments with output := given Path.ofText value }
  | .logLevel => { arguments with logLevel := given id value }
  | .fast => { arguments with isFast := true }
  | .help => arguments

/-- Is there anything to audit? An empty target is none. -/
def hasSubject (arguments : Arguments) : Bool :=
  arguments.crx.toOption.isSome || arguments.target.getD [] != []

end Arguments

/-- How far the words are taken: what was found, whether there may still be a target,
and the words that have no meaning. -/
structure Progress where
  arguments : Arguments
  isOpen : Bool
  leftOver : List Text

namespace Progress

/-- Before the first word. -/
def start : Progress := ⟨.none, true, []⟩

/-- Takes the value of a switch. -/
def take (progress : Progress) (s : Switch) (value : Text) : Progress :=
  { progress with arguments := progress.arguments.take s value }

/-- Takes the target, if there is one in its place. -/
def close (progress : Progress) (target : Option Text) : Progress :=
  { progress with
    arguments := { progress.arguments with target := target }, isOpen := false }

/-- Leaves a word over. -/
def leave (progress : Progress) (t : Text) : Progress :=
  { progress with leftOver := progress.leftOver ++ [t] }

/-- What is asked for once every word is taken. -/
def finish (progress : Progress) : Except UsageFault Order :=
  if progress.leftOver != [] then .error (.unrecognized progress.leftOver)
  else if progress.arguments.hasSubject then .ok (.audit progress.arguments)
  else .error .noTarget

end Progress

/-- What the letters after the short name of the switch for help ask for: help once more
for each that is the same letter. Any other would be a value, and there is none to
take. -/
def cluster : Text → Except UsageFault Order
  | [] => .ok .help
  | letter :: rest =>
    if letter == 'h' then cluster rest else .error (.idleValue .help (letter :: rest))

/-- Takes the words in their order. The divider goes with the target, on either side of
it. -/
def takeWords (progress : Progress) : List Word → Except UsageFault Order
  | [] => progress.finish
  | .plain t :: rest =>
    if progress.isOpen then
      match rest with
      | .divider :: more => takeWords (progress.close t) more
      | rest => takeWords (progress.close t) rest
    else takeWords (progress.leave t) rest
  | .divider :: rest =>
    if progress.isOpen then
      match rest with
      | .plain t :: more => takeWords (progress.close t) more
      | rest => takeWords (progress.close none) rest
    else takeWords (progress.leave Word.dividerText) rest
  | .switch s (some value) :: rest =>
    if s.hasValue then takeWords (progress.take s value) rest
    else .error (.idleValue s value)
  | .switch s none :: rest =>
    if s.hasValue then
      match rest with
      | .plain value :: more => takeWords (progress.take s value) more
      | _ => .error (.noValue s)
    else if s == .help then .ok .help
    else takeWords (progress.take s []) rest
  | .cluster letters :: _ => cluster letters
  | .unknown t :: rest => takeWords (progress.leave t) rest

/-- Reads a command line. -/
def Order.ofTexts (texts : List Text) : Except UsageFault Order := do
  takeWords .start (← (Word.ofTexts texts).mapError .ambiguous)

/-- What the command is called. -/
def name : Text := "extension-risk"

/-- What is said of a command line that asks for nothing. -/
def UsageFault.message (fault : UsageFault) : Text :=
  name ++ ": error: " ++ match fault with
    | .ambiguous ambiguity =>
      "ambiguous option: " ++ ambiguity.word ++ " could match " ++
      Text.join ", " (ambiguity.candidates.map Switch.name)
    | .noValue s => "argument " ++ s.names ++ ": expected one argument"
    | .idleValue s value =>
      "argument " ++ s.names ++ ": ignored explicit argument " ++ Text.quoted value
    | .unrecognized words => "unrecognized arguments: " ++ Text.join " " words
    | .noTarget => "a target URL/ID or --crx is required"

end ExtensionAudit.Command
