import ExtensionAudit.Json.Basic
import ExtensionAudit.Number.Decimal

/-!
Documents as text, in three forms: the form messages show, in which a text stands for
itself at the top and between quotes inside; the indented form of a saved file; and the
compact form of a response, which has no words for numbers that are not finite.
-/

namespace ExtensionAudit.Json

/-! ### In messages -/

mutual

/-- A value inside another one, in a message. -/
def quoted : Json → Text
  | .null => "None"
  | .bool b => if b then "True" else "False"
  | .int n => Text.ofInt n
  | .float x => x.shortestText
  | .text t => Text.quoted t
  | .array elements => "[" ++ Text.join ", " (quotedAll elements) ++ "]"
  | .object members => "\x7b" ++ Text.join ", " (quotedMembers members) ++ "\x7d"

/-- Every element of an array, in a message. -/
def quotedAll : List Json → List Text
  | [] => []
  | value :: rest => quoted value :: quotedAll rest

/-- Every member of an object, in a message. -/
def quotedMembers : List (Text × Json) → List Text
  | [] => []
  | (key, value) :: rest =>
    (Text.quoted key ++ ": " ++ quoted value) :: quotedMembers rest

end

/-- A value in a message: a text is shown as it is. -/
def shown : Json → Text
  | .text t => t
  | value => quoted value

/-! ### As a document -/

/-- One character of a string in a document. -/
def escapedChar (c : CodePoint) : Text :=
  if c == '"' then "\\\""
  else if c == '\\' then "\\\\"
  else if c == '\n' then "\\n"
  else if c == '\r' then "\\r"
  else if c == '\t' then "\\t"
  else if c.val == 0x08 then "\\b"
  else if c.val == 0x0C then "\\f"
  else if c.val < 0x20 then "\\u" ++ Text.hex 4 c.val
  else [c]

/-- A string in a document. Only quotes, backslashes and control characters are
escaped. -/
def string (t : Text) : Text := "\"" ++ t.flatMap escapedChar ++ "\""

/-- A double in a document, with words for those that are not finite. -/
def number (x : Binary64) : Text :=
  match x with
  | .nan => "NaN"
  | .infinite negative => if negative then "-Infinity" else "Infinity"
  | x => x.shortestText

/-- The start of a line at a depth of nesting. -/
def newline (depth : Nat) : Text := ('\n' : CodePoint) :: Text.rule (2 * depth) ' '

mutual

/-- A value with every element and member on a line of its own, in the pieces in which
it is written. What has to stand in front of it is one piece with a value that has no
parts. -/
def piecesAt (depth : Nat) (lead : Text) : Json → List Text
  | .null => [lead ++ "null"]
  | .bool b => [lead ++ (if b then "true" else "false" : Text)]
  | .int n => [lead ++ Text.ofInt n]
  | .float x => [lead ++ number x]
  | .text t => [lead ++ string t]
  | .array [] => [lead, "[]"]
  | .array (value :: rest) =>
    lead :: piecesAt (depth + 1) ("[" ++ newline (depth + 1)) value ++
      elementPieces depth rest
  | .object [] => [lead, "\x7b\x7d"]
  | .object ((key, value) :: rest) =>
    [lead, "\x7b" ++ newline (depth + 1), string key,
      ": "] ++ piecesAt (depth + 1) [] value ++
    memberPieces depth rest

/-- The elements after the first, and the end of the array. -/
def elementPieces (depth : Nat) : List Json → List Text
  | [] => [newline depth, "]"]
  | value :: rest =>
    piecesAt (depth + 1) ("," ++ newline (depth + 1)) value ++ elementPieces depth rest

/-- The members after the first, and the end of the object. -/
def memberPieces (depth : Nat) : List (Text × Json) → List Text
  | [] => [newline depth, "\x7d"]
  | (key, value) :: rest =>
    ["," ++ newline (depth + 1), string key, ": "] ++ piecesAt (depth + 1) [] value ++
    memberPieces depth rest

end

/-- The form of a saved file, two blanks for each depth, in the pieces in which it is
written. -/
def pieces (value : Json) : List Text := piecesAt 0 [] value

/-- The form of a saved file. -/
def indented (value : Json) : Text := value.pieces.flatten

mutual

/-- The form of a response, without blanks; `none` if it holds a number that is not
finite. -/
def compact? : Json → Option Text
  | .null => some "null"
  | .bool b => some (if b then "true" else "false")
  | .int n => some (Text.ofInt n)
  | .float (.finite s m e) => some (Binary64.finite s m e).shortestText
  | .float _ => none
  | .text t => some (string t)
  | .array elements =>
    (compactElements? elements).map fun parts => "[" ++ Text.join "," parts ++ "]"
  | .object members =>
    (compactMembers? members).map fun parts => "\x7b" ++ Text.join "," parts ++ "\x7d"

/-- Every element of an array, in the form of a response. -/
def compactElements? : List Json → Option (List Text)
  | [] => some []
  | value :: rest => do some ((← compact? value) :: (← compactElements? rest))

/-- Every member of an object, in the form of a response. -/
def compactMembers? : List (Text × Json) → Option (List Text)
  | [] => some []
  | (key, value) :: rest => do
    some ((string key ++ ":" ++ (← compact? value)) :: (← compactMembers? rest))

end

end ExtensionAudit.Json
