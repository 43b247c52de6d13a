import ExtensionAudit.Settings.Basic
import ExtensionAudit.Json.Printer
import ExtensionAudit.Json.Reader

/-!
Values of settings from values of documents. A text is read according to the shape of
the setting, so that it means the same in a file and in the environment.
-/

namespace ExtensionAudit.Coercion

/-- Why a value does not fit a shape. -/
inductive Fault
  | notFlag (shown : Text)
  | notNumeral (fault : Numeral.Fault)
  | notIntegral (kind : Json.Kind)
  | notNumeric (kind : Json.Kind)
  | undefined
  | notTexts
  | malformed (fault : Json.ReadFault)
  | infinite
  | tooLarge
deriving DecidableEq

/-- Reads a flag; words are taken without regard to case and to blanks around them. -/
def flag (value : Json) : Except Fault Bool :=
  match value with
  | .bool b => .ok b
  | value =>
    let word := Text.lower (Text.trim value.shown)
    if word ∈ (["1", "true", "yes", "on"] : List Text) then .ok true
    else if word ∈ (["0", "false", "no", "off"] : List Text) then .ok false
    else .error (.notFlag value.quoted)

/-- Reads an integer; a double loses its fraction. -/
def integer : Json → Except Fault Int
  | .bool b => .ok (if b then 1 else 0)
  | .int n => .ok n
  | .float x =>
    match x with
    | .nan => .error .undefined
    | .infinite _ => .error .infinite
    | x => .ok (x.truncate?.getD 0)
  | .text t => (Numeral.readInt t).mapError .notNumeral
  | value => .error (.notIntegral value.kind)

/-- Reads a double. -/
def number : Json → Except Fault Binary64
  | .bool b => .ok (Settings.double (if b then 1 else 0))
  | .int n =>
    match Binary64.ofInt? n with
    | some x => .ok x
    | none => .error .tooLarge
  | .float x => .ok x
  | .text t => (Numeral.readDouble t).mapError .notNumeral
  | value => .error (.notNumeric value.kind)

/-- The texts of a list that holds nothing else. -/
def allTexts : List Json → Option (List Text)
  | [] => some []
  | .text t :: rest => (allTexts rest).map (t :: ·)
  | _ :: _ => none

/-- The texts of an array that holds nothing else. -/
def ofArray : Json → Except Fault (List Text)
  | .array elements =>
    match allTexts elements with
    | some found => .ok found
    | none => .error .notTexts
  | _ => .error .notTexts

/-- Reads a list of texts; a text is read as a document first. -/
def texts (value : Json) : Except Fault (List Text) :=
  match value with
  | .text t =>
    match Json.read t with
    | .ok document => ofArray document
    | .error fault => .error (.malformed fault)
  | value => ofArray value

/-- Reads a value of a shape. -/
def read : (shape : Shape) → Json → Except Fault shape.Value
  | .flag, value => flag value
  | .integer, value => integer value
  | .number, value => number value
  | .texts, value => texts value
  | .text, value => .ok value.shown

/-- What is said of a value that does not fit its setting. -/
def Fault.message : Fault → Text
  | .notFlag shown => "not a boolean: " ++ shown
  | .notNumeral fault => fault.message
  | .notIntegral kind =>
    "int() argument must be a string, a bytes-like object or a real number, not '" ++
      kind.name ++ "'"
  | .notNumeric kind =>
    "float() argument must be a string or a real number, not '" ++ kind.name ++ "'"
  | .undefined => "cannot convert float NaN to integer"
  | .notTexts => "expected a list of strings"
  | .malformed fault => fault.message
  | .infinite => "cannot convert float infinity to integer"
  | .tooLarge => "int too large to convert to float"

end ExtensionAudit.Coercion
