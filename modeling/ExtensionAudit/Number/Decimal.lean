import ExtensionAudit.Text.Basic
import ExtensionAudit.Number.Binary64

/-!
Doubles in decimal. The shortest form has the fewest digits that read back as the same
double, and of those the nearest; the fixed form has two places; the general form has
six significant digits without trailing zeros. What is common to them is a decimal: a
coefficient and a power of ten.
-/

namespace ExtensionAudit

/-- The number `coefficient · 10^exponent`. -/
structure Decimal where
  coefficient : Nat
  exponent : Int
deriving DecidableEq

namespace Decimal

/-- The same number without trailing zeros in its coefficient, of which it has at most
`fuel`. -/
def trimmed : Nat → Decimal → Decimal
  | 0, d => d
  | fuel + 1, d =>
    if d.coefficient != 0 && d.coefficient % 10 == 0 then
      trimmed fuel ⟨d.coefficient / 10, d.exponent + 1⟩
    else d

/-- The exponent of the greatest power of ten that does not exceed the quotient of two
positive numbers. -/
def floorLog10 (num den : Nat) : Int :=
  if den ≤ num then (digitCount (num / den) : Int) - 1
  else
    let least := (den + num - 1) / num
    if least ≤ 1 then 0 else -(digitCount (least - 1) : Int)

/-- A quotient divided by a power of ten. -/
def scaled (num den : Nat) : Int → Nat × Nat
  | .ofNat k => (num, den * Nat.pow 10 k)
  | .negSucc k => (num * Nat.pow 10 (k + 1), den)

/-- The quotient rounded to a multiple of `10^exponent`. -/
def rounded (num den : Nat) (exponent : Int) : Decimal :=
  let (n, d) := scaled num den exponent
  ⟨roundHalfEven n d, exponent⟩

/-- The bounds of the numbers that round to the double `mantissa · 2^exponent`, in
quarters of `2^exponent`: below a power of two the neighbour is nearer. -/
def interval (mantissa : Nat) (exponent : Int) : Nat × Nat :=
  (4 * mantissa - (if mantissa == Nat.pow 2 52 && exponent != -1074 then 1 else 2),
    4 * mantissa + 2)

/-- Does the decimal round to the double `mantissa · 2^exponent`? The bounds do if the
mantissa is even. -/
def readsBack (mantissa : Nat) (exponent : Int) (d : Decimal) : Bool :=
  let (low, high) := interval mantissa exponent
  -- the decimal and the bounds over the common denominator `den`, times four
  let (unit, den) := Binary64.quotient 1 exponent
  let (n, p) := match d.exponent with
    | .ofNat k => (d.coefficient * Nat.pow 10 k, 1)
    | .negSucc k => (d.coefficient, Nat.pow 10 (k + 1))
  let value := 4 * n * den
  let low := low * unit * p
  let high := high * unit * p
  if mantissa % 2 == 0 then low ≤ value && value ≤ high else low < value && value < high

/-- The decimals with `count` digits on either side of the quotient, the nearer first. -/
def neighbours (num den : Nat) (count : Nat) : List Decimal :=
  let exponent := floorLog10 num den - (count : Int) + 1
  let (n, d) := scaled num den exponent
  let near := roundHalfEven n d
  let far := if near == n / d then near + 1 else near - 1
  [⟨near, exponent⟩, ⟨far, exponent⟩]

/-- Tries `count` digits, then one more, as long as `fuel` lasts. -/
def shortestFrom (mantissa : Nat) (exponent : Int) (count : Nat) : Nat → Decimal
  | 0 =>
    let (num, den) := Binary64.quotient mantissa exponent
    rounded num den (floorLog10 num den - (count : Int) + 1)
  | fuel + 1 =>
    let (num, den) := Binary64.quotient mantissa exponent
    match (neighbours num den count).find? (readsBack mantissa exponent) with
    | some d => d
    | none => shortestFrom mantissa exponent (count + 1) fuel

/-- The fewest digits that read back as the double `mantissa · 2^exponent`, and of those
the nearest; seventeen always do. -/
def shortest (mantissa : Nat) (exponent : Int) : Decimal :=
  trimmed 20 (shortestFrom mantissa exponent 1 16)

/-- The digits in front of a scale factor: one, then a point and the others if there are
any; the exponent has a sign and at least two digits. -/
def scientific (d : Decimal) : Text :=
  let digits := Text.ofNat d.coefficient
  let power := d.exponent + (digits.length : Int) - 1
  let mantissa : Text := match digits with
    | first :: rest => if rest.isEmpty then [first] else first :: "." ++ rest
    | [] => []
  let magnitude := Text.ofNat power.natAbs
  mantissa ++ "e" ++ (if power < 0 then "-" else "+") ++
    (if magnitude.length < 2 then "0" ++ magnitude else magnitude)

/-- The digits around the point, `whole` written after a number that has no fraction. -/
def positional (whole : Text) (d : Decimal) : Text :=
  let digits := Text.ofNat d.coefficient
  let point := d.exponent + (digits.length : Int)
  if point ≤ 0 then "0." ++ Text.rule (-point).toNat '0' ++ digits
  else if (digits.length : Int) ≤ point then
    digits ++ Text.rule (point - digits.length).toNat '0' ++ whole
  else digits.take point.toNat ++ "." ++ digits.drop point.toNat

/-- The power of ten of the first digit. -/
def leadingPower (d : Decimal) : Int := d.exponent + (digitCount d.coefficient : Int) - 1

end Decimal

namespace Binary64

/-- A minus sign, or nothing. -/
def sign (negative : Bool) : Text := if negative then "-" else ""

/-- The text of a number that is not finite. -/
def special (x : Binary64) : Text :=
  match x with
  | .infinite negative => sign negative ++ "inf"
  | _ => "nan"

/-- The shortest text that reads back: positional from 10^-4 up to below 10^16, always
with a point or a scale factor. -/
def shortestText : Binary64 → Text
  | .finite negative mantissa exponent =>
    if mantissa == 0 then sign negative ++ "0.0"
    else
      let d := Decimal.shortest mantissa exponent
      let power := d.leadingPower
      sign negative ++
        (if -4 ≤ power && power < 16 then d.positional ".0" else d.scientific)
  | x => x.special

/-- A count of hundredths with a point before the last two digits. -/
def hundredthsText (n : Nat) : Text :=
  let fraction := Text.ofNat (n % 100)
  Text.ofNat (n / 100) ++ "." ++
    (if fraction.length < 2 then "0" ++ fraction else fraction)

/-- The number rounded to hundredths, a half to the even neighbour. -/
def fixedText : Binary64 → Text
  | .finite negative mantissa exponent =>
    let (num, den) := quotient mantissa exponent
    sign negative ++ hundredthsText (roundHalfEven (num * 100) den)
  | x => x.special

/-- Six significant digits without trailing zeros; positional from 10^-4 up to below
10^6. -/
def generalText : Binary64 → Text
  | .finite negative mantissa exponent =>
    if mantissa == 0 then sign negative ++ "0"
    else
      let (num, den) := quotient mantissa exponent
      let d :=
        Decimal.trimmed 8 (Decimal.rounded num den (Decimal.floorLog10 num den - 5))
      let power := d.leadingPower
      sign negative ++ (if -4 ≤ power && power < 6 then d.positional "" else d.scientific)
  | x => x.special

end Binary64

end ExtensionAudit
