import ExtensionAudit.Archive.CodePage
import ExtensionAudit.Archive.Fault

/-!
The directory of an archive. The end record at the close of the octets says how long the
directory in front of it is and at which offset it should start; octets put in front of
an archive shift all of its offsets by the difference. Wide archives have a second,
wider end record before the first.
-/

namespace ExtensionAudit.Archive

/-- The number that `width` octets at an offset spell. -/
def field (offset width : Nat) (bytes : Bytes) : Nat :=
  Bytes.toNatLE (Bytes.slice offset width bytes)

/-- Where the directory is: the place of the end record, and what it says. -/
structure EndRecord where
  place : Nat
  directorySize : Nat
  directoryOffset : Nat
  isWide : Bool
deriving DecidableEq

/-- The first octets of an end record. -/
def endMagic : Bytes := [0x50, 0x4B, 5, 6]

/-- The first octets of the record that leads to a wide end record. -/
def locatorMagic : Bytes := [0x50, 0x4B, 6, 7]

/-- The first octets of a wide end record. -/
def wideEndMagic : Bytes := [0x50, 0x4B, 6, 6]

/-- The first octets of a directory entry. -/
def entryMagic : Bytes := [0x50, 0x4B, 1, 2]

/-- How many octets an end record has without its comment. -/
def endSize : Nat := 22

/-- How many octets a locator has. -/
def locatorSize : Nat := 20

/-- How many octets a wide end record has. -/
def wideEndSize : Nat := 56

/-- How many octets a directory entry has without its texts. -/
def entrySize : Nat := 46

/-- The last place from which the octets start with `part`; `place` is that of the first
of them. -/
def lastPlace (part : Bytes) (place : Nat) : Bytes → Option Nat
  | [] => none
  | b :: rest =>
    match lastPlace part (place + 1) rest with
    | some found => some found
    | none => if part.isPrefixOf (b :: rest) then some place else none

/-- Where the end record is: at the very end if it has no comment, otherwise at its last
mark within reach of the longest comment. -/
def endPlace? (archive : Bytes) : Option Nat :=
  let last := archive.length - endSize
  let tail := archive.drop last
  if endSize ≤ archive.length && endMagic.isPrefixOf tail && field 20 2 tail ==
    0 then some last
  else
    let start := archive.length - (65536 + endSize)
    match lastPlace endMagic start (archive.drop start) with
    | some place => if place + endSize ≤ archive.length then some place else none
    | none => none

/-- Reads the end record, or the wide one in front of it. -/
def endRecord (archive : Bytes) : Except Fault EndRecord :=
  match endPlace? archive with
  | none => .error (.corrupt .notArchive)
  | some place =>
    let record := archive.drop place
    let narrow : EndRecord := ⟨place, field 12 4 record, field 16 4 record, false⟩
    let locator := Bytes.slice (place - locatorSize) locatorSize archive
    if !locatorMagic.isPrefixOf locator || locator.length < locatorSize then .ok narrow
    else if field 4 4 locator != 0 || 1 < field 16 4 locator
      then .error (.corrupt .manyDisks)
    else
      let wide := Bytes.slice (place - locatorSize - wideEndSize) wideEndSize archive
      if !wideEndMagic.isPrefixOf wide || wide.length < wideEndSize then .ok narrow
      else .ok ⟨place, field 40 8 wide, field 48 8 wide, true⟩

namespace EndRecord

/-- Where the directory starts, if the octets before the end record can hold it. -/
def directoryStart (r : EndRecord) : Int :=
  r.place - r.directorySize - (if r.isWide then (wideEndSize + locatorSize : Nat)
    else (0 : Nat))

/-- By how much the offsets of the archive are shifted. -/
def shift (r : EndRecord) : Int := r.directoryStart - r.directoryOffset

end EndRecord

/-- Takes a wide value from an extra field in the place of one that is `isFull`. -/
def widen (wide : WideField) (isFull : Bool) (value : Nat) (data : Bytes) :
    Except Fault (Nat × Bytes) :=
  if !isFull then .ok (value, data)
  else if data.length < 8 then .error (.corrupt (.wideField wide))
  else .ok (field 0 8 data, data.drop 8)

/-- Takes the wide values of an entry from the data of an extra field. -/
def widenEntry (e : Entry) (data : Bytes) : Except Fault Entry := do
  let (size, data) ← widen .size (e.size == 0xFFFFFFFF || e.size ==
      0xFFFFFFFFFFFFFFFF) e.size data
  let (packedSize, data) ← widen .packedSize (e.packedSize == 0xFFFFFFFF)
      e.packedSize data
  let (offset, _) ← widen .offset (e.offset == 0xFFFFFFFF) e.offset.toNat data
  .ok { e with size, packedSize, offset }

/-- Reads the extra fields of an entry. -/
def readExtra (e : Entry) (extra : Bytes) : Except Fault Entry :=
  if _ : extra.length < 4 then .ok e
  else
    let (tag, size) := (field 0 2 extra, field 2 2 extra)
    if extra.length < size + 4 then .error (.corrupt (.extraField tag size))
    else do
      let e ← if tag == 1 then widenEntry e (Bytes.slice 4 size extra) else .ok e
      readExtra e (extra.drop (size + 4))
termination_by extra.length
decreasing_by simp only [List.length_drop]; omega

/-- Reads a name: as UTF-8 if the flags say so, otherwise in the code page. -/
def readName (flags : Nat) (bytes : Bytes) : Except Fault Text :=
  if flags.testBit 11 then (Utf8.decode bytes).mapError .nameEncoding
  else .ok (CodePage.decode bytes)

/-- The latest version of the format that is understood, in tenths. -/
def latestVersion : Nat := 63

/-- Reads one entry, with its texts after it; its offset is still without the shift. -/
def readEntry (bytes : Bytes) : Except Fault Entry := do
  let flags := field 8 2 bytes
  let nameLength := field 28 2 bytes
  let listedName ← readName flags (Bytes.slice entrySize nameLength bytes)
  let version := field 6 1 bytes
  let e : Entry :=
    { listedName, flags, method := field 10 2 bytes, checksum := field 16 4 bytes,
      packedSize := field 20 4 bytes, size := field 24 4 bytes, attributes :=
        field 38 4 bytes,
      offset := field 42 4 bytes, limit := 0 }
  if latestVersion < version then .error (.unsupported (.version version))
  else readExtra e (Bytes.slice (entrySize + nameLength) (field 30 2 bytes) bytes)

/-- How many octets an entry has with its texts. -/
def entryLength (bytes : Bytes) : Nat :=
  entrySize + field 28 2 bytes + field 30 2 bytes + field 32 2 bytes

/-- Reads entry after entry. -/
def readEntries (bytes : Bytes) : Except Fault (List Entry) :=
  if bytes = [] then .ok []
  else if bytes.length < entrySize then .error (.corrupt .directoryEnd)
  else if !entryMagic.isPrefixOf bytes then .error (.corrupt .directoryMagic)
  else do
    let e ← readEntry bytes
    .ok (e :: (← readEntries (bytes.drop (entryLength bytes))))
termination_by bytes.length
decreasing_by
  have := List.length_pos_iff.2 ‹_›
  simp only [List.length_drop, entryLength, entrySize]
  omega

/-- Where a member's data must end: at the least offset behind its own that another
member has, or at the directory. Of several members with one offset, each ends before
the one that is listed next. -/
def limits (directory : Int) (entries : List Entry) : List (Nat × Int) :=
  let ranked := entries.zipIdx.mergeSort fun a b => b.1.offset ≤ a.1.offset
  (ranked.map (·.2)).zip (directory :: ranked.map (·.1.offset))

/-- Gives each entry its limit. -/
def limited (directory : Int) (entries : List Entry) : List Entry :=
  let found := limits directory entries
  entries.zipIdx.map fun (e, i) => { e with limit := (found.lookup i).getD directory }

/-- The entries of an archive in the order of its directory. -/
def entries (archive : Bytes) : Except Fault (List Entry) := do
  let record ← endRecord archive
  if record.directoryStart < 0 then .error (.corrupt .directoryOffset)
  else
    let listed ← readEntries
      (Bytes.slice record.directoryStart.toNat record.directorySize archive)
    .ok (limited record.directoryStart
      (listed.map fun e => { e with offset := e.offset + record.shift }))

end ExtensionAudit.Archive
