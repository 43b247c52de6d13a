import ExtensionAudit.Text.Basic

/-!
Reading octets as UTF-8. The octets are cut into pieces, each a scalar value or a
malformed run: the longest beginning of some valid sequence, and at least one octet. A
strict reading stops at the first malformed run; a lossy one puts the replacement
character there.
-/

namespace ExtensionAudit.Utf8

/-- Why a run of octets is malformed. -/
inductive Problem
  | invalidStart
  | invalidContinuation
  | unexpectedEnd
deriving DecidableEq

/-- A scalar value, or a malformed run and the reason. -/
inductive Piece
  | scalar (c : CodePoint)
  | malformed (run : Bytes) (problem : Problem)
deriving DecidableEq

/-- How many octets a sequence opened by `lead` has after the lead, and the bounds of
the second octet; `none` if no sequence starts so. -/
def form (lead : UInt8) : Option (Nat × UInt8 × UInt8) :=
  if 0xC2 ≤ lead && lead ≤ 0xDF then some (1, 0x80, 0xBF)
  else if lead == 0xE0 then some (2, 0xA0, 0xBF)
  else if lead == 0xED then some (2, 0x80, 0x9F)
  else if 0xE1 ≤ lead && lead ≤ 0xEF then some (2, 0x80, 0xBF)
  else if lead == 0xF0 then some (3, 0x90, 0xBF)
  else if lead == 0xF4 then some (3, 0x80, 0x8F)
  else if 0xF1 ≤ lead && lead ≤ 0xF3 then some (3, 0x80, 0xBF)
  else none

/-- Takes `missing` more octets of a sequence whose octets so far are `run` and whose
bits so far are `bits`; the next octet must lie between the bounds, every later one only
continue. -/
def complete (run : Bytes) (bits : Nat) : Nat → UInt8 → UInt8 → Bytes → Piece × Bytes
  | 0, _, _, rest => (.scalar (CodePoint.ofNat bits), rest)
  | _ + 1, _, _, [] => (.malformed run .unexpectedEnd, [])
  | missing + 1, low, high, b :: rest =>
    if low ≤ b && b ≤ high then
      complete (run ++ [b]) (bits * 64 + (b.toNat - 0x80)) missing 0x80 0xBF rest
    else (.malformed run .invalidContinuation, b :: rest)

/-- The piece that starts with `lead`, and the octets after it. -/
def next (lead : UInt8) (rest : Bytes) : Piece × Bytes :=
  if lead < 0x80 then (.scalar (CodePoint.ofNat lead.toNat), rest)
  else match form lead with
    | none => (.malformed [lead] .invalidStart, rest)
    | some (missing, low, high) =>
      complete [lead] (lead.toNat % Nat.pow 2 (6 - missing)) missing low high rest

theorem length_complete_le (run : Bytes) (bits missing : Nat) (low high : UInt8)
    (rest : Bytes) :
    (complete run bits missing low high rest).2.length ≤ rest.length := by
  induction missing generalizing run bits low high rest with
  | zero => simp [complete]
  | succ n ih =>
    cases rest with
    | nil => simp [complete]
    | cons b rest =>
      simp only [complete]
      split
      · exact Nat.le_trans (ih ..) (Nat.le_succ _)
      · exact Nat.le_refl _

theorem length_next_le (lead : UInt8)
    (rest : Bytes) : (next lead rest).2.length ≤ rest.length := by
  unfold next
  split
  · exact Nat.le_refl _
  · split
    · exact Nat.le_refl _
    · exact length_complete_le ..

/-- Cuts the octets into pieces. -/
def pieces : Bytes → List Piece
  | [] => []
  | lead :: rest => (next lead rest).1 :: pieces (next lead rest).2
termination_by bytes => bytes.length
decreasing_by exact Nat.lt_succ_of_le (length_next_le lead rest)

/-- Where a strict reading fails: the position of the malformed run, the run, and the
reason. -/
structure Fault where
  position : Nat
  run : Bytes
  problem : Problem
deriving DecidableEq

/-- Reads pieces strictly, with `position` octets before them. -/
def ofPieces (position : Nat) : List Piece → Except Fault Text
  | [] => .ok []
  | .malformed run problem :: _ => .error ⟨position, run, problem⟩
  | .scalar c :: rest =>
    let width := if c.val < 0x80 then 1 else if c.val < 0x800 then 2 else if c.val <
      0x10000 then 3 else 4
    (ofPieces (position + width) rest).map (c :: ·)

/-- Reads the octets as text, all of them valid. -/
def decode (bytes : Bytes) : Except Fault Text := ofPieces 0 (pieces bytes)

/-- Reads the octets as text, with a replacement character for each malformed run. -/
def decodeLossy (bytes : Bytes) : Text :=
  (pieces bytes).map fun
    | .scalar c => c
    | .malformed .. => CodePoint.replacement

/-- The three octets of a byte order mark. -/
def signature : Bytes := [0xEF, 0xBB, 0xBF]

/-- The octets after a leading byte order mark. A file that breaks off inside the mark
is empty. -/
def dropSignature (bytes : Bytes) : Bytes :=
  if signature.isPrefixOf bytes then bytes.drop 3
  else if bytes.isPrefixOf signature then []
  else bytes

/-- The octets of one code point; a surrogate is written as if it were a scalar value. -/
def encodeChar (c : CodePoint) : Bytes :=
  let octet (n : Nat) : UInt8 := UInt8.ofNat n
  if c.val < 0x80 then [octet c.val]
  else if c.val < 0x800 then [octet (0xC0 + c.val / 64), octet (0x80 + c.val % 64)]
  else if c.val < 0x10000 then
    [octet (0xE0 + c.val / 4096), octet (0x80 + c.val / 64 % 64),
      octet (0x80 + c.val % 64)]
  else
    [octet (0xF0 + c.val / 262144), octet (0x80 + c.val / 4096 % 64),
     octet (0x80 + c.val / 64 % 64), octet (0x80 + c.val % 64)]

/-- The octets of a text; a surrogate is written as if it were a scalar value. -/
def encode (t : Text) : Bytes := t.flatMap encodeChar

/-- Surrogates that stand in the way of writing a text: their position and the
surrogates. -/
structure EncodingFault where
  position : Nat
  run : Text
deriving DecidableEq

/-- The octets of a text without surrogates. -/
def encodeStrict (t : Text) : Except EncodingFault Bytes :=
  let clean := t.takeWhile fun c => !c.isSurrogate
  let rest := t.drop clean.length
  if rest == [] then .ok (encode t)
  else .error ⟨clean.length, rest.takeWhile CodePoint.isSurrogate⟩

/-- Why octets are malformed. -/
def Problem.message : Problem → Text
  | .invalidStart => "invalid start byte"
  | .invalidContinuation => "invalid continuation byte"
  | .unexpectedEnd => "unexpected end of data"

/-- What is said of a malformed run: the octet if it is alone, otherwise the span of
positions. -/
def Fault.message (f : Fault) : Text :=
  let place : Text := match f.run with
    | [b] => "byte 0x" ++ Text.hex 2 b.toNat ++ " in position " ++ Text.ofNat f.position
    | run => "bytes in position " ++ Text.ofNat f.position ++ "-" ++
        Text.ofNat (f.position + run.length - 1)
  "'utf-8' codec can't decode " ++ place ++ ": " ++ f.problem.message

/-- What is said of surrogates: the one if it is alone, otherwise the span of
positions. -/
def EncodingFault.message (f : EncodingFault) : Text :=
  let place : Text := match f.run with
    | [c] =>
      "character '\\u" ++ Text.hex 4 c.val ++ "' in position " ++ Text.ofNat f.position
    | run => "characters in position " ++ Text.ofNat f.position ++ "-" ++
        Text.ofNat (f.position + run.length - 1)
  "'utf-8' codec can't encode " ++ place ++ ": surrogates not allowed"

end ExtensionAudit.Utf8
