/-!
Binary floating point of 64 bits, in exact arithmetic: a finite number is a mantissa
times a power of two, and every operation computes its exact result and rounds it once,
to nearest with ties to even.
-/

namespace ExtensionAudit

/-- The quotient of two natural numbers rounded to nearest, a half to the even
neighbour. -/
def roundHalfEven (num den : Nat) : Nat :=
  let q := num / den
  let r := num % den
  if den < 2 * r || (2 * r == den && q % 2 == 1) then q + 1 else q

/-- How many decimal digits a number has. -/
def digitCount (n : Nat) : Nat := (Nat.toDigits 10 n).length

/-- A double. A finite one is `mantissa · 2^exponent` with a mantissa below 2^53 and an
exponent from -1074 to 971, the mantissa at least 2^52 unless the exponent is the
least. -/
inductive Binary64
  | finite (negative : Bool) (mantissa : Nat) (exponent : Int)
  | infinite (negative : Bool)
  | nan
deriving DecidableEq

namespace Binary64

/-- A quotient divided by a power of two. -/
def scaled (num den : Nat) : Int → Nat × Nat
  | .ofNat k => (num, den * Nat.pow 2 k)
  | .negSucc k => (num * Nat.pow 2 (k + 1), den)

/-- The exponent of the greatest power of two that does not exceed the quotient of two
positive numbers. -/
def floorLog2 (num den : Nat) : Int :=
  let guess : Int := (num.log2 : Int) - (den.log2 : Int)
  let (n, d) := scaled num den guess
  if d ≤ n then guess else guess - 1

/-- The zero of either sign. -/
def zero (negative : Bool) : Binary64 := .finite negative 0 (-1074)

/-- The double nearest to a quotient; one too large for every finite double is
infinite. -/
def ofQuotient (negative : Bool) (num den : Nat) : Binary64 :=
  if num == 0 then zero negative
  else
    let exponent := max (floorLog2 num den - 52) (-1074)
    let (n, d) := scaled num den exponent
    let rounded := roundHalfEven n d
    let (mantissa, exponent) :=
      if rounded == Nat.pow 2 53 then (Nat.pow 2 52, exponent + 1)
      else (rounded, exponent)
    if 971 < exponent then .infinite negative else .finite negative mantissa exponent

/-- The double nearest to an integer; `none` if it is too large. -/
def ofInt? (n : Int) : Option Binary64 :=
  match ofQuotient (n < 0) n.natAbs 1 with
  | .infinite _ => none
  | x => some x

/-- The double nearest to `coefficient · 10^exponent`. Beyond the first bounds every
value rounds to infinity or zero. -/
def ofDecimal (negative : Bool) (coefficient : Nat) (exponent : Int) : Binary64 :=
  if coefficient == 0 then zero negative
  else
    let magnitude := exponent + digitCount coefficient
    if 310 < magnitude then .infinite negative
    else if magnitude < -330 then zero negative
    else match exponent with
      | .ofNat k => ofQuotient negative (coefficient * Nat.pow 10 k) 1
      | .negSucc k => ofQuotient negative coefficient (Nat.pow 10 (k + 1))

/-- The magnitude of a finite double as a quotient. -/
def quotient (mantissa : Nat) : Int → Nat × Nat
  | .ofNat k => (mantissa * Nat.pow 2 k, 1)
  | .negSucc k => (mantissa, Nat.pow 2 (k + 1))

/-- Puts a sign on a magnitude. -/
def signed (negative : Bool) (magnitude : Nat) : Int :=
  if negative then -magnitude else magnitude

/-- The sum, rounded once. Zeros of both signs add to the positive one. -/
def add : Binary64 → Binary64 → Binary64
  | .nan, _ => .nan
  | _, .nan => .nan
  | .infinite a, .infinite b => if a == b then .infinite a else .nan
  | .infinite a, _ => .infinite a
  | _, .infinite b => .infinite b
  | .finite a m e, .finite b n f =>
    let least := min e f
    let sum := signed a (m * Nat.pow 2 (e - least).toNat) +
      signed b (n * Nat.pow 2 (f - least).toNat)
    if sum == 0 then zero (a && b)
    else
      let (num, den) := quotient sum.natAbs least
      ofQuotient (sum < 0) num den

/-- The quotient by a positive number, rounded once. -/
def divNat (x : Binary64) (divisor : Nat) : Binary64 :=
  match x with
  | .finite negative mantissa exponent =>
    let (num, den) := quotient mantissa exponent
    ofQuotient negative num (den * divisor)
  | x => x

/-- Is the double less than the integer? -/
def ltInt (x : Binary64) (n : Int) : Bool :=
  match x with
  | .nan => false
  | .infinite negative => negative
  | .finite negative mantissa exponent =>
    let (num, den) := quotient mantissa exponent
    signed negative num < n * den

/-- Is the double equal to the integer? -/
def eqInt (x : Binary64) (n : Int) : Bool :=
  match x with
  | .finite negative mantissa exponent =>
    let (num, den) := quotient mantissa exponent
    signed negative num == n * den
  | _ => false

/-- Is the double at least the integer? -/
def geInt (x : Binary64) (n : Int) : Bool :=
  match x with
  | .nan => false
  | x => !x.ltInt n

/-- Is the double zero, of either sign? -/
def isZero (x : Binary64) : Bool := x.eqInt 0

/-- The integer part of a finite double. -/
def truncate? : Binary64 → Option Int
  | .finite negative mantissa exponent =>
    let (num, den) := quotient mantissa exponent
    some (signed negative (num / den))
  | _ => none

end Binary64

end ExtensionAudit
