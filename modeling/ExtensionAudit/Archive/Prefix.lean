import ExtensionAudit.Text.Basic

/-!
Codes of varying length in which no code starts another. A code is given by the lengths
of its words; the words of one length follow those of the shorter ones in the order of
the symbols. It is kept as a tree that bits walk.
-/

namespace ExtensionAudit.Archive

/-- A code as a tree: the symbol reached, a fork, or words that stand for nothing. -/
inductive CodeTree
  | symbol (value : Nat)
  | fork (zero one : CodeTree)
  | unused

namespace CodeTree

/-- Takes the words of a list, shortest first, into a tree whose root is `depth` bits
down, at most `fuel` bits deep; gives the tree and the words left over. -/
def grow (depth : Nat) : Nat → List (Nat × Nat) → CodeTree × List (Nat × Nat)
  | _, [] => (.unused, [])
  | 0, (length, value) :: rest =>
    if length == depth then (.symbol value, rest) else (.unused, (length, value) :: rest)
  | fuel + 1, (length, value) :: rest =>
    if length == depth then (.symbol value, rest)
    else
      let (zero, more) := grow (depth + 1) fuel ((length, value) :: rest)
      let (one, more) := grow (depth + 1) fuel more
      (.fork zero one, more)

/-- The longest word of any code. -/
def longest : Nat := 15

/-- The words of a code: the symbols with a length, shortest first. -/
def words (lengths : List Nat) : List (Nat × Nat) :=
  (lengths.zipIdx.filter (·.1 != 0)).mergeSort fun a b => a.1 ≤ b.1

/-- The tree of a code. Without words, both bits stand for nothing. -/
def ofLengths (lengths : List Nat) : CodeTree :=
  match words lengths with
  | [] => .fork .unused .unused
  | words => (grow 0 longest words).1

/-- How full a code is: the sum of 2^(15 - length) over its words, 2^15 for a complete
one. -/
def fullness (lengths : List Nat) : Nat :=
  lengths.foldr (fun length sum => if length == 0 then sum
    else Nat.pow 2 (longest - length) + sum) 0

/-- The outcome of a walk: a symbol or an unused word, with the bits after it, or too
few bits. -/
inductive Walk
  | symbol (value : Nat) (rest : List Bool)
  | unused
  | outOfBits

/-- Walks down the tree. -/
def walk : CodeTree → List Bool → Walk
  | .symbol value, bits => .symbol value bits
  | .unused, _ => .unused
  | .fork _ _, [] => .outOfBits
  | .fork zero _, false :: bits => walk zero bits
  | .fork _ one, true :: bits => walk one bits

end CodeTree

end ExtensionAudit.Archive
