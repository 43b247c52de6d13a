import ExtensionAudit.Archive.Checksum
import ExtensionAudit.Archive.Directory

/-!
Members of an archive. Opening one checks its header against the directory; its content
is then taken as it is, inflated, or unpacked by a library, cut to the size that the
directory gives, and held against the checksum. Data are taken portion by portion, each
up to the end of a chunk of the content, and what is wrong in a portion shows when it is
taken, also behind the end of the content.
-/

namespace ExtensionAudit.Archive

/-- What comes out of a member: the octets for its file, and what is wrong with the
others. -/
structure Content where
  octets : Bytes
  fault : Option Fault
deriving DecidableEq

/-- The first octets of a member's header. -/
def headerMagic : Bytes := [0x50, 0x4B, 3, 4]

/-- How many octets a header has without its texts. -/
def headerSize : Nat := 30

/-- How many octets are written at a time. What is wrong with a member keeps the octets
that are written together with it from being written. -/
def chunkSize : Nat := 65536

namespace Entry

/-- Is the member packed in a way that can be unpacked? -/
def isReadable (e : Entry) : Bool := [0, 8, 12, 14].contains e.method

/-- Has an offset a place among the signed numbers of 64 bits? Octets can be sought at
no other. -/
def isReachable (offset : Int) : Bool :=
  -0x8000000000000000 ≤ offset && offset < 0x8000000000000000

/-- Where a member's data starts, once its header has been checked. -/
def dataStart (archive : Bytes) (e : Entry) : Except Fault Nat := do
  if !isReachable e.offset then .error .beyondReach
  else if e.offset < 0 then .error (.beforeStart e.offset)
  else
    let header := archive.drop e.offset.toNat
    if header.length < headerSize then .error (.corrupt .headerEnd)
    else if !headerMagic.isPrefixOf header then .error (.corrupt .headerMagic)
    else if e.hasFlag 5 then .error (.unsupported .patchedData)
    else if e.hasFlag 6 then .error (.unsupported .strongEncryption)
    else
      let octets := Bytes.slice headerSize (field 26 2 header) header
      let name ← readName (field 6 2 header) octets
      let start := min archive.length
        (e.offset.toNat + headerSize + field 26 2 header + field 28 2 header)
      if name != e.listedName then .error (.corrupt (.names e.listedName octets))
      else if e.limit < start + e.packedSize
        then .error (.corrupt (.overlap e.listedName))
      else if e.hasFlag 0 then .error (.encrypted e)
      else if !e.isReadable then .error (.unsupported .method)
      else .ok start

/-- The content when there is a fault at some position: the octets of the chunks
before. -/
def failing (octets : Bytes) (position : Nat) (fault : Fault) : Content :=
  ⟨octets.take (position / chunkSize * chunkSize), some fault⟩

/-- Holds the octets of a member against its checksum, once the last portion is there,
which starts at a position. -/
def verified (e : Entry) (octets : Bytes) (position : Nat) : Content :=
  if checksumOf octets == e.checksum then ⟨octets, none⟩
  else failing octets position (.corrupt (.checksum e.name))

/-- The content of a member whose data are its octets. -/
def storedContent (e : Entry) (data : Bytes) : Content :=
  if data.length < min e.packedSize (max 1 e.size)
    then failing data data.length (.corrupt .dataEnd)
  else
    let octets := data.take (min e.packedSize e.size)
    e.verified octets (octets.length - 1)

end Entry

/-- How many octets are read, and made room for, at the least. -/
def leastReading : Nat := 4096

/-- Deflated data on their way: the inflater, how many whole octets it was given and has
not needed yet, the octets that have not been read, and how many of them belong to the
member. -/
structure Inflation where
  inflater : Inflater
  ahead : Nat
  unread : Bytes
  owed : Nat

namespace Inflation

/-- Before anything is inflated. -/
def start (e : Entry) (data : Bytes) : Inflation := ⟨.start, 0, data, e.packedSize⟩

/-- How far the content is. -/
def position (i : Inflation) : Nat := i.inflater.output.size

/-- How many octets there are to the end of the chunk. -/
def wanted (i : Inflation) : Nat := chunkSize - i.position % chunkSize

/-- Reads more octets of the data, unless enough of them are ahead. The octets may end
before the data do. -/
def refill? (i : Inflation) : Option Inflation :=
  if i.owed == 0 || i.wanted ≤ i.ahead then some i
  else
    let octets := i.unread.take (min i.owed (max leastReading (i.wanted - i.ahead)))
    if octets == [] then none
    else some { i with
      inflater := i.inflater.feed octets
      unread := i.unread.drop octets.length
      owed := i.owed - octets.length }

/-- How many whole octets are ahead when inflating stops. -/
def aheadAt : Stop → Nat
  | .noRoom spare => spare / 8
  | _ => 0

/-- Inflates a portion, with room for so many octets more. -/
def inflate (room : Nat) : Inflation → Inflation × Stop
  | ⟨inflater, _, unread, owed⟩ =>
    let (inflater, stop) := inflater.run (inflater.output.size + room)
    (⟨inflater, aheadAt stop, unread, owed⟩, stop)

/-- The octets of a member so far. -/
def octets (e : Entry) (i : Inflation) : Bytes := i.inflater.output.toList.take e.size

/-- Have all data been taken? A few bits may still be ahead. -/
def isTaken (i : Inflation) : Bool := i.owed == 0 && i.ahead == 0

/-- Goes on to the end of the content. What the last few bits stand for belongs to the
last portion as far as they stand for anything. -/
def content (e : Entry) : Nat → Inflation → Content
  | 0, i => Entry.failing (i.octets e) i.position (.corrupt .dataEnd)
  | fuel + 1, i =>
    let position := i.position
    let room := max leastReading i.wanted
    match i.refill? with
    | none => Entry.failing (i.octets e) position (.corrupt .dataEnd)
    | some filled =>
      match filled.inflate room with
      | (next, .malformed problem) =>
        Entry.failing (next.octets e) position (.corrupt (.stream problem))
      | (next, .complete) => e.verified (next.octets e) position
      | (next, _) =>
        if next.isTaken then
          e.verified (octets e { next with inflater := next.inflater.drain }) position
        else if e.size ≤ next.position then e.verified (next.octets e) position
        else content e fuel next

end Inflation

/-- Data on their way through a library: the portions it was given, the octets that they
yielded, the data that have not been read, and how many of them belong to the member. -/
structure Unpacking where
  given : List Bytes
  output : Bytes
  unread : Bytes
  owed : Nat

namespace Unpacking

/-- Before anything is unpacked. -/
def start (e : Entry) (data : Bytes) : Unpacking := ⟨[], [], data, e.packedSize⟩

/-- The portion that is read next. -/
def portion (u : Unpacking) : Bytes :=
  u.unread.take (min u.owed (max leastReading (chunkSize - u.output.length % chunkSize)))

/-- With a portion that is not the last there is less left to read. -/
theorem owed_lt (u : Unpacking) {isComplete isEnough : Bool}
    (hsome : ¬ (u.owed ≠ 0 ∧ u.portion = []))
    (hmore : ¬ (isComplete || u.owed - u.portion.length == 0 || isEnough) = true) :
    u.owed - u.portion.length < u.owed := by
  simp only [Bool.or_eq_true, beq_iff_eq, not_or] at hmore
  have howed : u.owed ≠ 0 := by omega
  have := List.length_pos_iff.mpr fun hnil : u.portion = [] => hsome ⟨howed, hnil⟩
  omega

/-- Goes on to the end of the content. The data may end before the member does. -/
def content (codec : Codec) (refused : Text → Fault) (e : Entry)
    (u : Unpacking) : Content :=
  let position := u.output.length
  if _ : u.owed ≠ 0 ∧ u.portion = [] then
    Entry.failing (u.output.take e.size) position (.corrupt .dataEnd)
  else
    match codec (u.given ++ [u.portion]) with
    | .error problem => Entry.failing (u.output.take e.size) position (refused problem)
    | .ok (output, isComplete) =>
      let owed := u.owed - u.portion.length
      if _ : isComplete || owed == 0 || e.size ≤ output.length then
        e.verified (output.take e.size) position
      else
        content codec refused e
          ⟨u.given ++ [u.portion], output, u.unread.drop u.portion.length, owed⟩
termination_by u.owed
decreasing_by exact u.owed_lt ‹_› ‹_›

end Unpacking

namespace Entry

/-- The content of a member whose data are deflated. Every portion takes octets of the
data, or yields octets, or else the next one takes octets of the data. -/
def inflatedContent (e : Entry) (data : Bytes) : Content :=
  Inflation.content e (2 * e.packedSize + e.size + 2) (.start e data)

/-- The content of a member, once it can be opened. -/
def content (platform : Platform) (archive : Bytes)
    (e : Entry) : Except Fault Content := do
  let data := archive.drop (← e.dataStart archive)
  .ok (match e.method with
    | 0 => e.storedContent data
    | 12 => Unpacking.content platform.bzip2 .undecodable e (.start e data)
    | 14 => Unpacking.content platform.lzma .lzma e (.start e data)
    | _ => e.inflatedContent data)

end Entry

end ExtensionAudit.Archive
