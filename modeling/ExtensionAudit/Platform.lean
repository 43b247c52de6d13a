import ExtensionAudit.Text.Basic

/-!
What an audit runs on, as far as it is not the same everywhere. Directories are made,
listed and removed by calls within calls, one for each level, and there is an end to
them; and some methods of packing belong to libraries that are known by what they do
only.
-/

namespace ExtensionAudit

/-- A library that unpacks. What it makes of the portions of data that it was given so
far is the octets that they yield and whether they are complete, or else it refuses the
last of them. -/
abbrev Codec := List Bytes → Except Text (Bytes × Bool)

/-- What an audit runs on: how many missing directories can be made at a time, how many
levels below a directory can be listed and how many removed, whether a member without a
name is refused for that, and the libraries for the two methods of packing that are not
its own. -/
structure Platform where
  making : Nat
  listing : Nat
  removing : Nat
  refusesNameless : Bool
  bzip2 : Codec
  lzma : Codec

namespace Platform

/-- What is said when there are too many calls within calls. -/
def depthMessage : Text := "maximum recursion depth exceeded"

/-- A platform without the two libraries, and with as many levels as there usually are. -/
def plain : Platform where
  making := 990
  listing := 986
  removing := 978
  refusesNameless := true
  bzip2 _ := .error "Invalid data stream"
  lzma _ := .error "Corrupt input data"

end Platform

end ExtensionAudit
