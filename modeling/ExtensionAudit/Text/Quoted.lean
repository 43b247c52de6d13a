import ExtensionAudit.Text.Casing
import ExtensionAudit.Text.PrintableTable

/-!
Quoted forms, in which messages show names and values: a text or a string of octets
between quotes, with everything that has no printed form escaped.
-/

namespace ExtensionAudit

/-- Does the character have a printed form? -/
def CodePoint.isPrintable (c : CodePoint) : Bool :=
  if c.val < 0x7F then 0x20 ≤ c.val else !c.isIn PrintableTable.hiddenRanges

namespace Text

/-- Single quotes, unless the text holds one and no double quote. -/
def quoteMark (t : Text) : CodePoint :=
  if t.any (· == '\'') && !t.any (· == '"') then '"' else '\''

/-- One character between quotes. -/
def quotedChar (mark c : CodePoint) : Text :=
  if c == mark || c == '\\' then "\\" ++ [c]
  else if c == '\n' then "\\n"
  else if c == '\r' then "\\r"
  else if c == '\t' then "\\t"
  else if c.isPrintable then [c]
  else if c.val < 0x100 then "\\x" ++ hex 2 c.val
  else if c.val < 0x10000 then "\\u" ++ hex 4 c.val
  else "\\U" ++ hex 8 c.val

/-- The text between quotes. -/
def quoted (t : Text) : Text :=
  let mark := quoteMark t
  [mark] ++ t.flatMap (quotedChar mark) ++ [mark]

/-- Octets between quotes, marked by a leading `b`; only printable ASCII stands for
itself. -/
def quotedBytes (bytes : Bytes) : Text :=
  let t : Text := bytes.map fun b => CodePoint.ofNat b.toNat
  let mark := quoteMark t
  let one (c : CodePoint) : Text :=
    if c.val < 0x7F then quotedChar mark c else "\\x" ++ hex 2 c.val
  "b" ++ [mark] ++ t.flatMap one ++ [mark]

end Text

end ExtensionAudit
