import ExtensionAudit.Text.Basic

/-!
Line ends: a text file may end its lines in three ways, and reading it makes them one.
-/

namespace ExtensionAudit.Text

/-- Reads a carriage return, alone or before a line feed, as a line feed. -/
def universalNewlines : Text → Text
  | [] => []
  | c :: rest =>
    if c == '\r' then
      match rest with
      | d :: more => if d == '\n' then '\n' :: universalNewlines more
                     else '\n' :: universalNewlines (d :: more)
      | [] => ['\n']
    else c :: universalNewlines rest

/-- The parts of the text between line feeds; a text that ends in a line feed has an
empty last part. -/
def lines (t : Text) : List Text := split '\n' t

end ExtensionAudit.Text
