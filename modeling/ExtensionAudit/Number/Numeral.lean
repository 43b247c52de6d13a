import ExtensionAudit.Text.Blank
import ExtensionAudit.Text.Casing
import ExtensionAudit.Text.Digit
import ExtensionAudit.Text.Quoted
import ExtensionAudit.Number.Binary64

/-!
Reading numbers from text as people write them in settings: blanks around, a sign,
decimal digits of any script, single underscores between digits; for a double also a
point, a scale factor, and the words for infinity and for no number.
-/

namespace ExtensionAudit.Numeral

/-- Why a text is not a number. -/
inductive Fault
  | notInteger (t : Text)
  | notNumber (t : Text)
  | tooManyDigits (count : Nat)
deriving DecidableEq

/-- An integer is read from at most this many digits. -/
def digitLimit : Nat := 4300

/-- The part of a quoted text that a message about an integer shows. -/
def quotedLimit : Nat := 200

/-- What is said of a text that is not a number. -/
def Fault.message : Fault → Text
  | .notInteger t =>
    "invalid literal for int() with base 10: " ++ (Text.quoted t).take quotedLimit
  | .notNumber t => "could not convert string to float: " ++ Text.quoted t
  | .tooManyDigits count =>
    "Exceeds the limit (" ++ Text.ofNat digitLimit ++
    " digits) for integer string conversion: value has " ++ Text.ofNat count ++
    " digits; use sys.set_int_max_str_digits() to increase the limit"

/-- The number that decimal digits spell. -/
def ofDigits (digits : List Nat) : Nat := digits.foldl (fun n d => 10 * n + d) 0

/-- The blanks that may stand around a number: all but the information separators. -/
def isMargin (c : CodePoint) : Bool := c.isBlank && !c.isBetween 0x1C 0x1F

/-- The text without the blanks around it. -/
def withoutMargins (t : Text) : Text :=
  ((t.dropWhile isMargin).reverse.dropWhile isMargin).reverse

/-- Takes the sign off a text; the first component says whether it is negative. -/
def takeSign : Text → Bool × Text
  | [] => (false, [])
  | c :: rest =>
    if c == '-' then (true, rest) else if c == '+' then (false, rest)
      else (false, c :: rest)

/-- The run of digits that a text starts with, and the rest. There is at least one
digit, and an underscore stands only between two. -/
def takeDigits (afterDigit : Bool) : Text → Option (List Nat × Text)
  | [] => if afterDigit then some ([], []) else none
  | c :: rest =>
    match c.decimalValue? with
    | some d => (takeDigits true rest).map fun (ds, rest) => (d :: ds, rest)
    | none =>
      if c == '_' then (if afterDigit then takeDigits false rest else none)
      else if afterDigit then some ([], c :: rest) else none

/-- Reads an integer. -/
def readInt (t : Text) : Except Fault Int :=
  let (negative, body) := takeSign (withoutMargins t)
  match takeDigits false body with
  | none => .error (.notInteger t)
  | some (digits, rest) =>
    if digitLimit < digits.length then .error (.tooManyDigits digits.length)
    else if rest != [] then .error (.notInteger t)
    else .ok (Binary64.signed negative (ofDigits digits))

/-- The digits after a point, if there are any. -/
def takeFraction : Text → Option (List Nat × Text)
  | [] => some ([], [])
  | c :: rest =>
    match c.decimalValue? with
    | some _ => takeDigits false (c :: rest)
    | none => some ([], c :: rest)

/-- The digits before and after the point, of which there is at least one, and the
rest. -/
def takeMantissa : Text → Option (List Nat × List Nat × Text)
  | [] => none
  | c :: rest =>
    if c == '.' then
      (takeDigits false rest).map fun (fraction, rest) => ([], fraction, rest)
    else
      (takeDigits false (c :: rest)).bind fun (whole, rest) =>
        match rest with
        | [] => some (whole, [], [])
        | d :: more =>
          if d == '.'
            then (takeFraction more).map fun (fraction, rest) => (whole, fraction, rest)
          else some (whole, [], d :: more)

/-- The scale factor, which is all that may follow. -/
def takeScale : Text → Option Int
  | [] => some 0
  | c :: rest =>
    if c == 'e' || c == 'E' then
      let (negative, body) := takeSign rest
      match takeDigits false body with
      | some (digits, []) => some (Binary64.signed negative (ofDigits digits))
      | _ => none
    else none

/-- Reads a double. -/
def readDouble (t : Text) : Except Fault Binary64 :=
  let (negative, body) := takeSign (withoutMargins t)
  let word := body.map CodePoint.small
  if word == ("inf" : Text) || word == ("infinity" : Text) then .ok (.infinite negative)
  else if word == ("nan" : Text) then .ok .nan
  else
    let value := do
      let (whole, fraction, rest) ← takeMantissa body
      let scale ← takeScale rest
      some (Binary64.ofDecimal negative (ofDigits (whole ++ fraction))
        (scale - fraction.length))
    match value with
    | some x => .ok x
    | none => .error (.notNumber t)

end ExtensionAudit.Numeral
