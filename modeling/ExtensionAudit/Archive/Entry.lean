import ExtensionAudit.Text.Quoted

/-!
Entries of an archive: what its directory says of each member, and how an entry is
described.
-/

namespace ExtensionAudit.Archive

/-- What the directory says of a member. The offset of its header may be before the
first octet, and its data has to end before `limit`, where the next member or the
directory starts. -/
structure Entry where
  listedName : Text
  flags : Nat
  method : Nat
  checksum : Nat
  packedSize : Nat
  size : Nat
  attributes : Nat
  offset : Int
  limit : Int
deriving DecidableEq

namespace Entry

/-- The name without what follows a null character. -/
def name (e : Entry) : Text := e.listedName.takeWhile fun c => c.val != 0

/-- A name that ends in a slash is that of a directory. -/
def isDirectory (e : Entry) : Bool := Text.endsWith "/" e.name

/-- The parts of the name that a member is put below: no empty ones and no dots. -/
def place (e : Entry) : List Text :=
  (Text.split '/' e.name).filter fun part =>
    part != [] && part != ("." : Text) && part != (".." : Text)

/-- Is a flag set? -/
def hasFlag (e : Entry) (bit : Nat) : Bool := e.flags.testBit bit

/-- What a packing method is called. -/
def methodName (method : Nat) : Text :=
  match method with
  | 0 => "store" | 1 => "shrink" | 2 | 3 | 4 | 5 => "reduce" | 6 | 10 => "implode"
  | 7 => "tokenize" | 8 => "deflate" | 9 => "deflate64" | 12 => "bzip2" | 14 => "lzma"
  | 18 => "terse" | 19 => "lz77" | 97 => "wavpack" | 98 => "ppmd"
  | other => Text.ofNat other

/-- The letter for a kind of file. -/
def kindLetter (kind : Nat) : CodePoint :=
  match kind with
  | 1 => 'p' | 2 => 'c' | 4 => 'd' | 6 => 'b' | 8 => '-' | 10 => 'l' | 12 => 's'
  | _ => '?'

/-- The letters of the three permissions of one class; `special` with its letter shows
in the last. -/
def permissionLetters (bits : Nat) (special : Bool) (letter capital : CodePoint) : Text :=
  let last : CodePoint :=
    if special then (if bits.testBit 0 then letter else capital)
    else if bits.testBit 0 then 'x' else '-'
  [if bits.testBit 2 then 'r' else '-', if bits.testBit 1 then 'w' else '-', last]

/-- A file mode as listings show it. -/
def modeLetters (mode : Nat) : Text :=
  [kindLetter (mode / 4096)] ++
  permissionLetters (mode / 64 % 8) (mode.testBit 11) 's' 'S' ++
  permissionLetters (mode / 8 % 8) (mode.testBit 10) 's' 'S' ++
  permissionLetters (mode % 8) (mode.testBit 9) 't' 'T'

/-- A part of a description, if it has something to say. -/
def remark (isSaid : Bool) (label value : Text) : Text :=
  if isSaid then " " ++ label ++ "=" ++ value else []

/-- An entry as messages describe it. -/
def description (e : Entry) : Text :=
  let mode := e.attributes / 65536
  let rest := e.attributes % 65536
  "<ZipInfo" ++ remark true "filename" (Text.quoted e.name) ++
  remark (e.method != 0) "compress_type" (methodName e.method) ++
  remark (mode != 0) "filemode" (Text.quoted (modeLetters mode)) ++
  remark (rest != 0) "external_attr"
    ("0x" ++ (Nat.toDigits 16 rest).map CodePoint.ofChar) ++
  remark (!e.isDirectory || e.size != 0) "file_size" (Text.ofNat e.size) ++
  remark ((!e.isDirectory || e.packedSize != 0) &&
    (e.method != 0 || e.size != e.packedSize))
    "compress_size" (Text.ofNat e.packedSize) ++ ">"

end Entry

end ExtensionAudit.Archive
