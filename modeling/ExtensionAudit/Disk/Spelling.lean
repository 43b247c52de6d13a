import ExtensionAudit.Disk.Path
import ExtensionAudit.Text.Utf8

/-!
How a text is spelt for the system that is a path or a word of a command: as octets,
none of which is null. A surrogate can stand for an octet that is not text, and is spelt
as that octet; no other surrogate can be spelt.
-/

namespace ExtensionAudit

/-- Does the surrogate stand for an octet? -/
def CodePoint.isOctetMark (c : CodePoint) : Bool := c.isBetween 0xDC80 0xDCFF

namespace Path

/-- Why a text cannot be spelt. -/
inductive Misspelling
  | surrogates (fault : Utf8.EncodingFault)
  | nullCharacter
deriving DecidableEq

/-- The first surrogates that cannot be spelt in a text that starts at a position. -/
def unspellable? (position : Nat) : Text → Option Utf8.EncodingFault
  | [] => none
  | c :: rest =>
    if c.isSurrogate && !c.isOctetMark then
      some ⟨position, (c :: rest).takeWhile CodePoint.isSurrogate⟩
    else unspellable? (position + 1) rest

/-- Why a text cannot be spelt, if it cannot. -/
def misspellingOf? (t : Text) : Option Misspelling :=
  match unspellable? 0 t with
  | some fault => some (.surrogates fault)
  | none => if t.any fun c => c.val == 0 then some .nullCharacter else none

/-- Why the path cannot be spelt, if it cannot. -/
def misspelling? (p : Path) : Option Misspelling := misspellingOf? p.text

/-- What is said of a text that cannot be spelt. -/
def Misspelling.message : Misspelling → Text
  | .surrogates fault => fault.message
  | .nullCharacter => "embedded null byte"

end Path

end ExtensionAudit
