import ExtensionAudit.Text.Basic

/-!
Patterns for names. An asterisk stands for any code points, a question mark for one, and
brackets for one of those that they list, or with an exclamation mark first for one of
the others. In brackets a hyphen between two code points stands for those from the one
to the other; one that stands first or last, or next to a range, stands for itself. A
bracket that is not closed stands for itself, too.
-/

namespace ExtensionAudit

namespace Text

/-- The endings of a text, from the text itself to the empty one. -/
def endings : Text → List Text
  | [] => [[]]
  | c :: rest => (c :: rest) :: endings rest

end Text

namespace Wildcard

/-- A piece of a pattern. -/
inductive Piece
  | anything
  | anyOne
  | exactly (c : CodePoint)
  | oneOf (isInverted : Bool) (ranges : List (CodePoint × CodePoint))
deriving DecidableEq

/-- Does the piece stand for the code point? -/
def Piece.takes (c : CodePoint) : Piece → Bool
  | .anything => true
  | .anyOne => true
  | .exactly d => d == c
  | .oneOf isInverted ranges =>
    (ranges.any fun range => c.isBetween range.1.val range.2.val) != isInverted

/-- Do the pieces stand for the whole text? -/
def fits : List Piece → Text → Bool
  | [], t => t.isEmpty
  | .anything :: rest, t => (Text.endings t).any (fits rest)
  | piece :: rest, c :: t => piece.takes c && fits rest t
  | _ :: _, [] => false

/-- What stands in brackets, up to the closing one; a closing bracket that stands first
is listed. The text begins behind the opening bracket. -/
def bracketed? (t : Text) : Option Text :=
  let mark := if t.head? == some ('!' : CodePoint) then 1 else 0
  let first := mark + (if (t.drop mark).head? == some (']' : CodePoint) then 1 else 0)
  let inside :=
    t.take (first + ((t.drop first).takeWhile fun c : CodePoint => c != ']').length)
  if inside.length < t.length then some inside else none

/-- Cuts what stands in brackets at the hyphens of ranges, each of which has at least so
many code points before it. -/
def cutRanges (least : Nat) (t : Text) : List Text :=
  let length := least + ((t.drop least).takeWhile fun c : CodePoint => c != '-').length
  if _ : length < t.length
    then t.take length :: cutRanges 2 (t.drop (length + 1)) else [t]
termination_by t.length
decreasing_by simp only [List.length_drop]; omega

/-- Gives a hyphen that stands last back to what is before it. -/
def keepLastHyphen : List Text → List Text
  | [] => []
  | [part, []] => [part ++ "-"]
  | part :: rest => part :: keepLastHyphen rest

/-- Leaves out the ranges that end before they start. -/
def dropEmptyRanges : List Text → List Text
  | [] => []
  | part :: rest =>
    match dropEmptyRanges rest with
    | [] => [part]
    | next :: more =>
      match part.getLast?, next.head? with
      | some low, some high =>
        if high.val < low.val then (part.dropLast ++ next.drop 1) :: more
        else part :: next :: more
      | _, _ => part :: next :: more

/-- What is listed, with nothing for the hyphen of a range. -/
def marks : List Text → List (Option CodePoint)
  | [] => []
  | [part] => part.map some
  | part :: rest => part.map some ++ none :: marks rest

/-- The ranges that are listed; a code point alone is a range of one. -/
def ranges : List (Option CodePoint) → List (CodePoint × CodePoint)
  | some low :: none :: some high :: rest => (low, high) :: ranges rest
  | some c :: rest => (c, c) :: ranges rest
  | none :: rest => ('-', '-') :: ranges rest
  | [] => []

/-- The piece for what stands in brackets. -/
def listPiece (inside : Text) : Piece :=
  let least := if inside.head? == some ('!' : CodePoint) then 2 else 1
  match marks (dropEmptyRanges (keepLastHyphen (cutRanges least inside))) with
  | some c :: rest =>
    if c == '!' then .oneOf true (ranges rest)
      else .oneOf false (ranges (some c :: rest))
  | rest => .oneOf false (ranges rest)

/-- Reads the pieces; `skip` counts the code points of one still to be left out. -/
def piecesFrom : Nat → Text → List Piece
  | _, [] => []
  | skip + 1, _ :: rest => piecesFrom skip rest
  | 0, c :: rest =>
    if c == '*' then .anything :: piecesFrom 0 rest
    else if c == '?' then .anyOne :: piecesFrom 0 rest
    else if c == '[' then
      match bracketed? rest with
      | some inside => listPiece inside :: piecesFrom (inside.length + 1) rest
      | none => .exactly c :: piecesFrom 0 rest
    else .exactly c :: piecesFrom 0 rest

/-- Reads a pattern. -/
def pieces (t : Text) : List Piece := piecesFrom 0 t

/-- Does the code point make a pattern of the text that it is in? -/
def isSign (c : CodePoint) : Bool := c == '*' || c == '?' || c == '['

end Wildcard

end ExtensionAudit
