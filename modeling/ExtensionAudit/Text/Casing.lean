import ExtensionAudit.Text.Basic
import ExtensionAudit.Text.CaseTable

/-!
Small letters. Every capital letter has one small letter, with two exceptions: the
dotted capital I becomes two characters, and a capital sigma at the end of a word takes
its final form.
-/

namespace ExtensionAudit

/-- Is the code point in one of the ranges? -/
def CodePoint.isIn (ranges : List (Nat × Nat)) (c : CodePoint) : Bool :=
  ranges.any fun (first, last) => c.isBetween first last

/-- The small letter that stands alone for this character, or the character itself. -/
def CodePoint.small (c : CodePoint) : CodePoint :=
  if c.val < 0x80 then
    if c.isBetween 65 90 then CodePoint.ofNat (c.val + 32) else c
  else
    match CaseTable.smallLetterRuns.find? fun (first, last, step, _) =>
        c.isBetween first last && (c.val - first) % step == 0 with
    | some (first, _, _, target) => CodePoint.ofNat (target + (c.val - first))
    | none => c

namespace Text

/-- Skips the characters that a search for a cased neighbour passes over, and says
whether a cased character follows. -/
def meetsCased (t : Text) : Bool :=
  match t.dropWhile (CodePoint.isIn CaseTable.ignorableRanges) with
  | [] => false
  | c :: _ => c.isIn CaseTable.casedRanges

/-- Lowers what is left of a text, given what came before it in reverse. -/
def lowerAfter (before : Text) : Text → Text
  | [] => []
  | c :: rest =>
    let small :=
      if c.val == 0x130 then [CodePoint.ofNat 0x69, CodePoint.ofNat 0x307]
      else if c.val == 0x3A3 then
        if meetsCased before && !meetsCased rest then [CodePoint.ofNat 0x3C2]
        else [CodePoint.ofNat 0x3C3]
      else [c.small]
    small ++ lowerAfter (c :: before) rest

/-- The text in small letters. -/
def lower (t : Text) : Text := lowerAfter [] t

end Text

end ExtensionAudit
