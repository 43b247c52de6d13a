import ExtensionAudit.Text.Basic

/-!
Paths: names from the working directory, or from the root of the file system, on. Empty
names and dots are dropped when a path is read, two dots are kept, and exactly two
leading slashes are a root of their own.
-/

namespace ExtensionAudit

/-- A path: how it starts, and the names on the way. -/
structure Path where
  root : Text
  names : List Text
deriving DecidableEq

namespace Path

/-- The working directory. -/
def here : Path := ⟨[], []⟩

/-- The path of names from the working directory on. -/
def ofNames (names : List Text) : Path := ⟨[], names⟩

/-- Does the code point separate names? -/
def isSlash (c : CodePoint) : Bool := c == '/'

/-- Reads a path. -/
def ofText (t : Text) : Path :=
  let slashes := (t.takeWhile isSlash).length
  let root : Text := if slashes == 0 then "" else if slashes == 2 then "//" else "/"
  ⟨root, (Text.pieces isSlash t).filter fun name => name != [] && name != ("." : Text)⟩

/-- The text of a path. -/
def text (p : Path) : Text :=
  if p.root == [] && p.names == [] then "." else p.root ++ Text.join "/" p.names

/-- The path of a name in a directory. -/
def child (p : Path) (name : Text) : Path := { p with names := p.names ++ [name] }

/-- The path of something below a directory. -/
def descend (p : Path) (names : List Text) : Path := { p with names := p.names ++ names }

/-- The directory that holds what the path names; a path without names is its own. -/
def parent (p : Path) : Path := { p with names := p.names.dropLast }

/-- Do the names of `a` come before those of `b` in the order of code points, name by
name? -/
def namesBefore : List Text → List Text → Bool
  | [], [] => false
  | [], _ :: _ => true
  | _ :: _, [] => false
  | a :: as, b :: bs => if a == b then namesBefore as bs else Text.atMost a b

end Path

end ExtensionAudit
