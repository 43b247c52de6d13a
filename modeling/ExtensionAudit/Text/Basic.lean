/-!
Text as the audit handles it: a list of code points. Unlike a string it may hold a
surrogate that stands alone, because an escaped document can spell one and everything
downstream has to carry it.

Literals are written as strings and read as texts by coercion. The searches and cuts
below are the only ones the library uses, and each recurses on the text itself.
-/

namespace ExtensionAudit

/-- A code point: a Unicode scalar value or a surrogate. -/
structure CodePoint where
  val : Nat
  valid : val < 0x110000
deriving DecidableEq

namespace CodePoint

/-- Every character is a code point. -/
def ofChar (c : Char) : CodePoint :=
  ⟨c.toNat, by rcases c.valid with h | h <;> simp only [Char.toNat] <;> omega⟩

instance : Coe Char CodePoint := ⟨ofChar⟩

/-- The code point of a number; a number beyond the last code point gives the replacement
character. -/
def ofNat (n : Nat) : CodePoint :=
  if h : n < 0x110000 then ⟨n, h⟩ else ⟨0xFFFD, by decide⟩

/-- The character that stands for undecodable bytes. -/
def replacement : CodePoint := ⟨0xFFFD, by decide⟩

/-- The mark that may open a text file. -/
def byteOrderMark : CodePoint := ⟨0xFEFF, by decide⟩

/-- Is the value between two bounds, both included? -/
def isBetween (c : CodePoint) (low high : Nat) : Bool := low ≤ c.val && c.val ≤ high

/-- One of `0` to `9`. -/
def isAsciiDigit (c : CodePoint) : Bool := c.isBetween 48 57

/-- One of `a` to `z` or `A` to `Z`. -/
def isAsciiLetter (c : CodePoint) : Bool := c.isBetween 97 122 || c.isBetween 65 90

/-- An ASCII letter or digit. -/
def isAsciiAlphanumeric (c : CodePoint) : Bool := c.isAsciiLetter || c.isAsciiDigit

/-- An ASCII letter, digit or underscore. -/
def isAsciiWord (c : CodePoint) : Bool := c.isAsciiAlphanumeric || c == '_'

/-- A surrogate, which no encoding of scalar values can express. -/
def isSurrogate (c : CodePoint) : Bool := c.isBetween 0xD800 0xDFFF

/-- The first half of a surrogate pair. -/
def isHighSurrogate (c : CodePoint) : Bool := c.isBetween 0xD800 0xDBFF

/-- The second half of a surrogate pair. -/
def isLowSurrogate (c : CodePoint) : Bool := c.isBetween 0xDC00 0xDFFF

end CodePoint

/-- A sequence of code points. -/
abbrev Text := List CodePoint

namespace Text

/-- The text of a string. -/
def ofString (s : String) : Text := s.toList.map CodePoint.ofChar

instance : Coe String Text := ⟨ofString⟩

/-- Does the text begin with `start`? -/
def startsWith (start t : Text) : Bool := start.isPrefixOf t

/-- Does the text end with `ending`? -/
def endsWith (ending t : Text) : Bool := ending.isSuffixOf t

/-- What follows `start`, if the text begins with it. -/
def dropStart? (start t : Text) : Option Text :=
  if start.isPrefixOf t then some (t.drop start.length) else none

/-- Does `part` occur somewhere in the text? -/
def contains (part : Text) : Text → Bool
  | [] => part.isEmpty
  | c :: rest => part.isPrefixOf (c :: rest) || contains part rest

/-- Cuts the text at every code point that satisfies `p`; the cuts are dropped, and two
cuts in a row leave an empty piece. -/
def pieces (p : CodePoint → Bool) : Text → List Text
  | [] => [[]]
  | c :: rest =>
    if p c then [] :: pieces p rest
    else match pieces p rest with
      | [] => [[c]]
      | piece :: more => (c :: piece) :: more

/-- Cuts the text at every `separator`. -/
def split (separator : CodePoint) (t : Text) : List Text := pieces (· == separator) t

/-- Writes the parts one after another with `separator` between them. -/
def join (separator : Text) : List Text → Text
  | [] => []
  | [part] => part
  | part :: more => part ++ separator ++ join separator more

/-- Replaces each occurrence of `old`, from the left; `skip` counts the code points of a
replaced occurrence still to be dropped. -/
def replaceFrom (old new : Text) : Nat → Text → Text
  | _, [] => []
  | skip + 1, _ :: rest => replaceFrom old new skip rest
  | 0, c :: rest =>
    if old.isPrefixOf (c :: rest) then new ++ replaceFrom old new (old.length - 1) rest
    else c :: replaceFrom old new 0 rest

/-- Replaces each occurrence of `old`, from the left; `old` is not empty. -/
def replace (old new t : Text) : Text := replaceFrom old new 0 t

/-- Does `a` come before or together with `b` in the order of code points? -/
def atMost : Text → Text → Bool
  | [], _ => true
  | _ :: _, [] => false
  | a :: as, b :: bs => a.val < b.val || (a.val == b.val && atMost as bs)

/-- The decimal digits of a number. -/
def ofNat (n : Nat) : Text := (Nat.toDigits 10 n).map CodePoint.ofChar

/-- The decimal digits of an integer, after a minus sign if it is negative. -/
def ofInt : Int → Text
  | .ofNat n => ofNat n
  | .negSucc n => ('-' : CodePoint) :: ofNat (n + 1)

/-- A line of `width` copies of one character. -/
def rule (width : Nat) (c : CodePoint) : Text := List.replicate width c

/-- The digits of a number in base sixteen, with leading zeros up to `width`. -/
def hex (width n : Nat) : Text :=
  let digits := (Nat.toDigits 16 n).map CodePoint.ofChar
  rule (width - digits.length) '0' ++ digits

end Text

/-- A sequence of octets. -/
abbrev Bytes := List UInt8

namespace Bytes

/-- The number that the octets spell, least significant first. -/
def toNatLE : Bytes → Nat
  | [] => 0
  | b :: rest => b.toNat + 256 * toNatLE rest

/-- The octets from `offset` on, `count` of them or as many as there are. -/
def slice (offset count : Nat) (bytes : Bytes) : Bytes := (bytes.drop offset).take count

end Bytes

end ExtensionAudit
