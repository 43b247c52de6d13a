import ExtensionAudit.Text.Basic

/-!
Blank characters, and what depends on them: trimming a text and cutting it into words.
-/

namespace ExtensionAudit

/-- White space in the widest sense: the control characters that move the carriage, the
four information separators, and every space, line and paragraph separator of
Unicode. -/
def CodePoint.isBlank (c : CodePoint) : Bool :=
  c.isBetween 0x09 0x0D || c.isBetween 0x1C 0x20 || c.val == 0x85 || c.val == 0xA0 ||
  c.val == 0x1680 || c.isBetween 0x2000 0x200A || c.isBetween 0x2028 0x2029 ||
    c.val == 0x202F ||
  c.val == 0x205F || c.val == 0x3000

namespace Text

/-- The text without the blanks at its end. -/
def trimEnd (t : Text) : Text := (t.reverse.dropWhile CodePoint.isBlank).reverse

/-- The text without the blanks at either end. -/
def trim (t : Text) : Text := trimEnd (t.dropWhile CodePoint.isBlank)

/-- The maximal runs of characters that are not blank. -/
def words (t : Text) : List Text := (pieces CodePoint.isBlank t).filter (· != [])

end Text

end ExtensionAudit
