import ExtensionAudit.Json.Basic

/-!
Sums, orders and lengths of documents whose kinds are not known beforehand. An integer
and a double add as doubles; texts and arrays join; everything else is a misuse.
-/

namespace ExtensionAudit.Json

/-- A number: exact or a double. -/
inductive Number
  | exact (n : Int)
  | double (x : Binary64)

/-- The number that a value is. -/
def number? : Json → Option Number
  | .float x => some (.double x)
  | value => value.integer?.map .exact

/-- The double nearest to an integer. -/
def toDouble (n : Int) : Except Misuse Binary64 :=
  match Binary64.ofInt? n with
  | some x => .ok x
  | none => .error .integerTooLarge

/-- The sum of two numbers. -/
def Number.add : Number → Number → Except Misuse Json
  | .exact m, .exact n => .ok (.int (m + n))
  | .double x, .double y => .ok (.float (x.add y))
  | .exact m, .double y => do .ok (.float ((← toDouble m).add y))
  | .double x, .exact n => do .ok (.float (x.add (← toDouble n)))

/-- The sum of two values. -/
def add (left right : Json) : Except Misuse Json :=
  match left.number?, right.number? with
  | some m, some n => m.add n
  | _, _ =>
    match left, right with
    | .text s, .text t => .ok (.text (s ++ t))
    | .array xs, .array ys => .ok (.array (xs ++ ys))
    | .text _, _ => .error (.notJoinable .text right.kind)
    | .array _, _ => .error (.notJoinable .array right.kind)
    | _, _ => .error (.notAddable left.kind right.kind)

/-- Is the number at least `n`? -/
def atLeast (value : Json) (n : Int) : Except Misuse Bool :=
  match value.number? with
  | some (.exact m) => .ok (n ≤ m)
  | some (.double x) => .ok (x.geInt n)
  | none => .error (.notComparable ">=" value.kind)

/-- How many elements, characters or members a value has. -/
def size : Json → Except Misuse Nat
  | .text t => .ok t.length
  | .array elements => .ok elements.length
  | .object members => .ok members.length
  | value => .error (.noLength value.kind)

/-- The member that an object must have. -/
def require (key : Text) : Json → Except Misuse Json
  | .object members =>
    match Entries.get? key members with
    | some value => .ok value
    | none => .error (.missingKey key)
  | .array elements => .error (.positionNotInteger (Json.array elements).kind)
  | .text t => .error (.positionNotInteger (Json.text t).kind)
  | value => .error (.notSubscriptable value.kind)

/-- The two parts of a value that has exactly two. -/
def pair (value : Json) : Except Misuse (Json × Json) :=
  match value.items with
  | .error _ => .error (.notUnpackable value.kind)
  | .ok [a, b] => .ok (a, b)
  | .ok (_ :: _ :: _ :: _) => .error .tooManyValues
  | .ok parts => .error (.tooFewValues parts.length)

end ExtensionAudit.Json
