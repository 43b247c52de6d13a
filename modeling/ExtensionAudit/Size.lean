import ExtensionAudit.Json.Basic
import ExtensionAudit.Number.Decimal

/-!
Sizes for people: a number of bytes with two decimals in the first unit in which it is
below 1024, the last unit without a bound.
-/

namespace ExtensionAudit.Size

/-- A size: an exact integer, or a double once it has been divided or if it was one. -/
inductive Amount
  | exact (n : Int)
  | rounded (x : Binary64)

/-- The units with a bound. -/
def units : List Text := ["B", "KB", "MB", "GB"]

/-- The unit without a bound. -/
def lastUnit : Text := "TB"

/-- Is the amount below 1024? -/
def Amount.fits : Amount → Bool
  | .exact n => n < 1024
  | .rounded x => x.ltInt 1024

/-- The amount in the next unit. -/
def Amount.next : Amount → Except Json.Misuse Amount
  | .exact n =>
    match Binary64.ofQuotient (n < 0) n.natAbs 1024 with
    | .infinite _ => .error .quotientTooLarge
    | x => .ok (.rounded x)
  | .rounded x => .ok (.rounded (x.divNat 1024))

/-- The amount with two decimals. -/
def Amount.text : Amount → Except Json.Misuse Text
  | .exact n =>
    match Binary64.ofInt? n with
    | some x => .ok x.fixedText
    | none => .error .integerTooLarge
  | .rounded x => .ok x.fixedText

/-- The amount in the first of the units in which it is below 1024. -/
def inUnits (amount : Amount) : List Text → Except Json.Misuse Text
  | [] => do .ok ((← amount.text) ++ " " ++ lastUnit)
  | unit :: more =>
    if amount.fits then do .ok ((← amount.text) ++ " " ++ unit)
    else do inUnits (← amount.next) more

/-- The size of a number of bytes. -/
def ofInt (n : Int) : Except Json.Misuse Text := inUnits (.exact n) units

/-- The size that a value stands for; it has to be a number. -/
def ofJson : Json → Except Json.Misuse Text
  | .bool b => ofInt (if b then 1 else 0)
  | .int n => ofInt n
  | .float x => inUnits (.rounded x) units
  | value => .error (.notComparable "<" value.kind)

end ExtensionAudit.Size
