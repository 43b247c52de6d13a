import ExtensionAudit.Entries
import ExtensionAudit.Number.Binary64
import ExtensionAudit.Text.Quoted

/-!
Documents. An object keeps its members in the order of the text; integers and doubles
are different values; a text may hold lone surrogates. What an operation expects of the
kind of a value is checked, and a value of another kind is a `Misuse`.
-/

namespace ExtensionAudit

/-- A document. -/
inductive Json
  | null
  | bool (b : Bool)
  | int (n : Int)
  | float (x : Binary64)
  | text (t : Text)
  | array (elements : List Json)
  | object (members : List (Text × Json))

namespace Json

/-- The seven kinds of document. -/
inductive Kind
  | null | bool | int | float | text | array | object
deriving DecidableEq

/-- The kind of a document. -/
def kind : Json → Kind
  | .null => .null
  | .bool _ => .bool
  | .int _ => .int
  | .float _ => .float
  | .text _ => .text
  | .array _ => .array
  | .object _ => .object

/-- How messages call a kind. -/
def Kind.name : Kind → Text
  | .null => "NoneType"
  | .bool => "bool"
  | .int => "int"
  | .float => "float"
  | .text => "str"
  | .array => "list"
  | .object => "dict"

/-- An operation on a value of a kind that has no such operation, or on one that lacks
the part asked for. -/
inductive Misuse
  | noAttribute (kind : Kind) (name : Text)
  | notIterable (kind : Kind)
  | noLength (kind : Kind)
  | notAddable (left right : Kind)
  | notJoinable (left right : Kind)
  | notComparable (operator : Text) (kind : Kind)
  | notSubscriptable (kind : Kind)
  | positionNotInteger (kind : Kind)
  | missingKey (key : Text)
  | notUnpackable (kind : Kind)
  | tooFewValues (count : Nat)
  | tooManyValues
  | integerTooLarge
  | quotientTooLarge
deriving DecidableEq

instance : Coe String Json := ⟨fun s => .text s⟩

/-- Null, false, zero and everything empty are falsy; all other values are truthy. -/
def isTruthy : Json → Bool
  | .null => false
  | .bool b => b
  | .int n => n != 0
  | .float x => !x.isZero
  | .text t => t != []
  | .array elements => !elements.isEmpty
  | .object members => !members.isEmpty

/-- The value itself if it is truthy, otherwise the other one. -/
def orElse (value other : Json) : Json := if value.isTruthy then value else other

/-- The member of an object, null if it is absent. -/
def member (key : Text) (members : Entries Json) : Json := (members.get? key).getD .null

/-- The members of an object; every other kind has no attribute `get`. -/
def members : Json → Except Misuse (Entries Json)
  | .object members => .ok members
  | value => .error (.noAttribute value.kind "get")

/-- What an iteration passes: the elements of an array, the characters of a text, the
keys of an object. -/
def items : Json → Except Misuse (List Json)
  | .array elements => .ok elements
  | .text t => .ok (t.map fun c => .text [c])
  | .object members => .ok (members.map fun (key, _) => .text key)
  | value => .error (.notIterable value.kind)

/-- Null stands for nothing, an array for its elements, and any other value for itself
alone. -/
def listed : Json → List Json
  | .null => []
  | .array elements => elements
  | value => [value]

/-- The value of an integer; true counts as one and false as nothing. -/
def integer? : Json → Option Int
  | .bool b => some (if b then 1 else 0)
  | .int n => some n
  | _ => none

/-- Is the value a number equal to `n`? -/
def equalsInt (n : Int) : Json → Bool
  | .float x => x.eqInt n
  | value => value.integer? == some n

/-- Is the value an array or an object? -/
def isContainer : Json → Bool
  | .array _ => true
  | .object _ => true
  | _ => false

/-- What is said of a value that is used as what it is not. -/
def Misuse.message : Misuse → Text
  | .noAttribute kind name =>
    "'" ++ kind.name ++ "' object has no attribute '" ++ name ++ "'"
  | .notIterable kind => "'" ++ kind.name ++ "' object is not iterable"
  | .noLength kind => "object of type '" ++ kind.name ++ "' has no len()"
  | .notAddable left right =>
    "unsupported operand type(s) for +: '" ++ left.name ++ "' and '" ++ right.name ++ "'"
  | .notJoinable left right =>
    "can only concatenate " ++ left.name ++ " (not \"" ++ right.name ++
      "\") to " ++ left.name
  | .notComparable operator kind =>
    "'" ++ operator ++ "' not supported between instances of '" ++
      kind.name ++ "' and 'int'"
  | .notSubscriptable kind => "'" ++ kind.name ++ "' object is not subscriptable"
  | .positionNotInteger .text => "string indices must be integers, not 'str'"
  | .positionNotInteger _ => "list indices must be integers or slices, not str"
  | .missingKey key => Text.quoted key
  | .notUnpackable kind => "cannot unpack non-iterable " ++ kind.name ++ " object"
  | .tooFewValues count =>
    "not enough values to unpack (expected 2, got " ++ Text.ofNat count ++ ")"
  | .tooManyValues => "too many values to unpack (expected 2)"
  | .integerTooLarge => "int too large to convert to float"
  | .quotientTooLarge => "integer division result too large for a float"

end Json

end ExtensionAudit
