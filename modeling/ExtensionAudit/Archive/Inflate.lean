import ExtensionAudit.Archive.Prefix

/-!
Inflating a deflated stream. The stream is a list of bits, cut into blocks that are
stored as they are, coded with a fixed code, or with a code of their own. An inflater
goes on until the stream ends, the bits run out, a block is malformed, or there is no
room for the next octet; it can then be given more bits or more room and goes on where
it stopped.
-/

namespace ExtensionAudit.Archive

/-- What is malformed in a stream. -/
inductive StreamProblem
  | blockType
  | storedLengths
  | tooManyCodes
  | codeLengths
  | lengthRepeat
  | noEndOfBlock
  | literalCode
  | distanceCode
  | literalWord
  | distanceWord
  | farDistance
deriving DecidableEq

/-- Why inflating stops. Without room for the next octet, `spare` bits are ahead that it
does not need. -/
inductive Stop
  | complete
  | outOfBits
  | noRoom (spare : Nat)
  | malformed (problem : StreamProblem)
deriving DecidableEq

/-- The bits of an octet, least significant first. -/
def octetBits (b : UInt8) : List Bool := (List.range 8).map fun i => b.toNat.testBit i

/-- The bits of octets. -/
def bitsOf (bytes : Bytes) : List Bool := bytes.flatMap octetBits

/-- The number that bits spell, least significant first. -/
def bitsValue : List Bool → Nat
  | [] => 0
  | b :: rest => (if b then 1 else 0) + 2 * bitsValue rest

/-- Takes a number of `count` bits. -/
def takeBits (count : Nat) (bits : List Bool) : Except Stop (Nat × List Bool) :=
  let taken := bits.take count
  if taken.length < count then .error .outOfBits
  else .ok (bitsValue taken, bits.drop count)

/-- Takes the symbol of a code; `problem` is an unused word. -/
def takeSymbol (code : CodeTree) (problem : StreamProblem) (bits : List Bool) :
    Except Stop (Nat × List Bool) :=
  match code.walk bits with
  | .symbol value rest => .ok (value, rest)
  | .unused => .error (.malformed problem)
  | .outOfBits => .error .outOfBits

/-- A literal and length code, and a distance code. -/
structure Codes where
  literals : CodeTree
  distances : CodeTree

/-- The least length of each length symbol from 257 on, with the number of further
bits. -/
def lengthBases : List (Nat × Nat) := [
  (3, 0), (4, 0), (5, 0), (6, 0), (7, 0), (8, 0), (9, 0), (10, 0), (11, 1), (13, 1),
  (15, 1), (17, 1), (19, 2), (23, 2), (27, 2), (31, 2), (35, 3), (43, 3), (51, 3),
  (59, 3), (67, 4), (83, 4), (99, 4), (115, 4), (131, 5), (163, 5), (195, 5), (227, 5),
  (258, 0)]

/-- The least distance of each distance symbol, with the number of further bits. -/
def distanceBases : List (Nat × Nat) := [
  (1, 0), (2, 0), (3, 0), (4, 0), (5, 1), (7, 1), (9, 2), (13, 2), (17, 3), (25, 3),
  (33, 4), (49, 4), (65, 5), (97, 5), (129, 6), (193, 6), (257, 7), (385, 7), (513, 8),
  (769, 8), (1025, 9), (1537, 9), (2049, 10), (3073, 10), (4097, 11), (6145, 11),
  (8193, 12), (12289, 12), (16385, 13), (24577, 13)]

/-- The code of fixed blocks. -/
def fixedCodes : Codes where
  literals := CodeTree.ofLengths
    (List.replicate 144 8 ++ List.replicate 112 9 ++ List.replicate 24 7 ++
      List.replicate 8 8)
  distances := CodeTree.ofLengths (List.replicate 32 5)

/-- What is being inflated: the head of a block, the octets of a stored block, the
symbols of a coded one, a copy among them, or nothing more. `count` octets are still to
come. -/
inductive Phase
  | head
  | stored (count : Nat)
  | coded (codes : Codes)
  | copying (codes : Codes) (distance count : Nat)
  | finished

/-- An inflater: the bits ahead, the octets so far, whether the block is the last one,
and what is being inflated. -/
structure Inflater where
  bits : List Bool
  output : Array UInt8
  isLast : Bool
  phase : Phase

/-- What a step comes to: the inflater goes on, or it stops. -/
inductive Step
  | next (inflater : Inflater)
  | halt (inflater : Inflater) (stop : Stop)

/-- Copies `count` octets from `distance` back, as long as there is room; tells how many
are still to be copied. -/
def copyBack (limit distance : Nat) : Nat → Array UInt8 → Array UInt8 × Nat
  | 0, output => (output, 0)
  | count + 1, output =>
    if limit ≤ output.size then (output, count + 1)
    else
      copyBack limit distance count
        (output.push ((output[output.size - distance]?).getD 0))

/-- Takes a base and its further bits. -/
def takeBased (bases : List (Nat × Nat)) (index : Nat) (problem : StreamProblem)
    (bits : List Bool) :
    Except Stop (Nat × List Bool) :=
  match bases[index]? with
  | none => .error (.malformed problem)
  | some (base, extra) => do
    let (more, bits) ← takeBits extra bits
    .ok (base + more, bits)

/-- The order in which the lengths of the code for lengths are written. -/
def lengthOrder : List Nat :=
  [16, 17, 18, 0, 8, 7, 9, 6, 10, 5, 11, 4, 12, 3, 13, 2, 14, 1, 15]

/-- Takes `count` lengths of three bits. -/
def takeLengthLengths : Nat → List Bool → Except Stop (List Nat × List Bool)
  | 0, bits => .ok ([], bits)
  | count + 1, bits => do
    let (length, bits) ← takeBits 3 bits
    let (more, bits) ← takeLengthLengths count bits
    .ok (length :: more, bits)

/-- The lengths by symbol, given the first ones in their written order. -/
def arrangeLengths (written : List Nat) : List Nat :=
  (List.range 19).map fun symbol =>
    ((lengthOrder.zip written).find? (·.1 == symbol)).elim 0 (·.2)

/-- The code for lengths. Without words, every bit is a length of zero. -/
def lengthCode (lengths : List Nat) : Except Stop CodeTree :=
  if lengths.all (· == 0) then .ok (.fork (.symbol 0) (.symbol 0))
  else if CodeTree.fullness lengths == Nat.pow 2 CodeTree.longest
    then .ok (CodeTree.ofLengths lengths)
  else .error (.malformed .codeLengths)

/-- Takes the lengths of two codes, `total` together: single ones, repetitions of the
one before, and runs of zeros. `done` is in reverse. -/
def takeLengths (code : CodeTree) (total : Nat) : Nat → List Nat → List Bool →
    Except Stop (List Nat × List Bool)
  | 0, _, _ => .error .outOfBits
  | fuel + 1, done, bits =>
    if total ≤ done.length then .ok (done.reverse, bits)
    else do
      let (symbol, bits) ← takeSymbol code .codeLengths bits
      if symbol < 16 then takeLengths code total fuel (symbol :: done) bits
      else
        let (extra, least) :=
          if symbol == 16 then (2, 3) else if symbol == 17 then (3, 3) else (7, 11)
        let (more, bits) ← takeBits extra bits
        match (if symbol == 16 then done.head? else some 0) with
        | none => .error (.malformed .lengthRepeat)
        | some value =>
          if total < done.length + least + more then .error (.malformed .lengthRepeat)
          else
            takeLengths code total fuel
              (List.replicate (least + more) value ++ done) bits

/-- A code is usable if it is complete, empty, or has a single word of one bit. -/
def isUsable (lengths : List Nat) : Bool :=
  CodeTree.fullness lengths == Nat.pow 2 CodeTree.longest || lengths.all (· == 0) ||
  (lengths.filter (· != 0) == [1])

/-- Takes the codes at the head of a block with codes of its own. -/
def takeCodes (bits : List Bool) : Except Stop (Codes × List Bool) := do
  let (literals, bits) ← takeBits 5 bits
  let (distances, bits) ← takeBits 5 bits
  let (lengths, bits) ← takeBits 4 bits
  let (literals, distances) := (literals + 257, distances + 1)
  if 286 < literals || 30 < distances then .error (.malformed .tooManyCodes)
  else
    let (written, bits) ← takeLengthLengths (lengths + 4) bits
    let code ← lengthCode (arrangeLengths written)
    let (all, bits) ← takeLengths code (literals + distances) (bits.length + 1) [] bits
    let (first, second) := (all.take literals, all.drop literals)
    if (first[256]?).getD 0 == 0 then .error (.malformed .noEndOfBlock)
    else if !isUsable first then .error (.malformed .literalCode)
    else if !isUsable second then .error (.malformed .distanceCode)
    else .ok (⟨CodeTree.ofLengths first, CodeTree.ofLengths second⟩, bits)

/-- Takes the length of a stored block, which starts at an octet boundary with its
length written twice. -/
def takeStoredLength (bits : List Bool) : Except Stop (Nat × List Bool) := do
  let (length, bits) ← takeBits 16 (bits.drop (bits.length % 8))
  let (complement, bits) ← takeBits 16 bits
  if length + complement != 0xFFFF then .error (.malformed .storedLengths)
  else .ok (length, bits)

/-- Takes the head of a block: whether it is the last one, and what follows. -/
def takeHead (bits : List Bool) : Except Stop (Bool × Phase × List Bool) := do
  let (last, bits) ← takeBits 1 bits
  let (type, bits) ← takeBits 2 bits
  if type == 0 then
    let (count, bits) ← takeStoredLength bits
    .ok (last == 1, .stored count, bits)
  else if type == 1 then .ok (last == 1, .coded fixedCodes, bits)
  else if type == 2 then
    let (codes, bits) ← takeCodes bits
    .ok (last == 1, .coded codes, bits)
  else .error (.malformed .blockType)

/-- Takes the length and the distance of a copy, whose symbol has been taken. -/
def takeCopy (codes : Codes) (symbol : Nat)
    (bits : List Bool) : Except Stop (Nat × Nat × List Bool) := do
  let (length, bits) ← takeBased lengthBases (symbol - 257) .literalWord bits
  let (symbol, bits) ← takeSymbol codes.distances .distanceWord bits
  let (distance, bits) ← takeBased distanceBases symbol .distanceWord bits
  .ok (length, distance, bits)

namespace Inflater

/-- An inflater that has been given nothing. -/
def start : Inflater := ⟨[], #[], false, .head⟩

/-- Gives the inflater more octets. -/
def feed (octets : Bytes) (i : Inflater) : Inflater :=
  { i with bits := i.bits ++ bitsOf octets }

/-- What follows a block. -/
def afterBlock (isLast : Bool) : Phase := if isLast then .finished else .head

/-- Takes the octets of a stored block. -/
def stepStored (limit : Nat) (isLast : Bool) : Nat → List Bool → Array UInt8 → Step
  | 0, bits, output => .next ⟨bits, output, isLast, afterBlock isLast⟩
  | count + 1, bits, output =>
    match takeBits 8 bits with
    | .error stop => .halt ⟨bits, output, isLast, .stored (count + 1)⟩ stop
    | .ok (octet, rest) =>
      if limit ≤ output.size then
        .halt ⟨bits, output, isLast, .stored (count + 1)⟩ (.noRoom bits.length)
      else stepStored limit isLast count rest (output.push (UInt8.ofNat octet))

/-- Copies, and goes on with the symbols. -/
def stepCopy (limit : Nat) (codes : Codes) (distance count : Nat) (bits : List Bool)
    (output : Array UInt8) (isLast : Bool) : Step :=
  match copyBack limit distance count output with
  | (output, 0) => .next ⟨bits, output, isLast, .coded codes⟩
  | (output, left) =>
    .halt ⟨bits, output, isLast, .copying codes distance left⟩ (.noRoom bits.length)

/-- Takes one symbol. One for which there is no room is taken again when there is. -/
def stepCoded (limit : Nat) (codes : Codes) (bits : List Bool) (output : Array UInt8)
    (isLast : Bool) : Step :=
  match takeSymbol codes.literals .literalWord bits with
  | .error stop => .halt ⟨bits, output, isLast, .coded codes⟩ stop
  | .ok (symbol, rest) =>
    if symbol < 256 then
      if limit ≤ output.size
        then .halt ⟨bits, output, isLast, .coded codes⟩ (.noRoom rest.length)
      else .next ⟨rest, output.push (UInt8.ofNat symbol), isLast, .coded codes⟩
    else if symbol == 256 then .next ⟨rest, output, isLast, afterBlock isLast⟩
    else match takeCopy codes symbol rest with
      | .error stop => .halt ⟨bits, output, isLast, .coded codes⟩ stop
      | .ok (length, distance, rest) =>
        if limit ≤ output.size
          then .halt ⟨bits, output, isLast, .coded codes⟩ (.noRoom rest.length)
        else if output.size < distance then
          .halt ⟨bits, output, isLast, .coded codes⟩ (.malformed .farDistance)
        else stepCopy limit codes distance length rest output isLast

/-- Takes a step within a limit for the octets. -/
def step (limit : Nat) : Inflater → Step
  | ⟨bits, output, isLast, .head⟩ =>
    match takeHead bits with
    | .error stop => .halt ⟨bits, output, isLast, .head⟩ stop
    | .ok (isLast, phase, bits) => .next ⟨bits, output, isLast, phase⟩
  | ⟨bits, output, isLast, .stored count⟩ => stepStored limit isLast count bits output
  | ⟨bits, output, isLast, .coded codes⟩ => stepCoded limit codes bits output isLast
  | ⟨bits, output, isLast, .copying codes distance count⟩ =>
    stepCopy limit codes distance count bits output isLast
  | ⟨bits, output, isLast, .finished⟩ => .halt ⟨bits, output, isLast, .finished⟩ .complete

/-- Takes at most `fuel` steps. -/
def steps (limit : Nat) : Nat → Inflater → Inflater × Stop
  | 0, i => (i, .outOfBits)
  | fuel + 1, i =>
    match i.step limit with
    | .next i => steps limit fuel i
    | .halt i stop => (i, stop)

/-- Inflates until the octets reach a limit. Of two steps in a row at least one takes a
bit, so the bits bound their number. -/
def run (limit : Nat) (i : Inflater) : Inflater × Stop :=
  steps limit (2 * i.bits.length + 3) i

/-- The longest copy. -/
def longestCopy : Nat := 258

/-- Inflates what is left in the bits ahead, with room for as many octets as they can
stand for. -/
def drain (i : Inflater) : Inflater :=
  (i.run (i.output.size + longestCopy * (i.bits.length + 1))).1

end Inflater

/-- What is said of a malformed stream. -/
def StreamProblem.message : StreamProblem → Text
  | .blockType => "invalid block type"
  | .storedLengths => "invalid stored block lengths"
  | .tooManyCodes => "too many length or distance symbols"
  | .codeLengths => "invalid code lengths set"
  | .lengthRepeat => "invalid bit length repeat"
  | .noEndOfBlock => "invalid code -- missing end-of-block"
  | .literalCode => "invalid literal/lengths set"
  | .distanceCode => "invalid distances set"
  | .literalWord => "invalid literal/length code"
  | .distanceWord => "invalid distance code"
  | .farDistance => "invalid distance too far back"

end ExtensionAudit.Archive
