import ExtensionAudit.Package
import Mathlib.Algebra.GroupWithZero.Nat
import Mathlib.Tactic.Common

/-!
# Package — the container and its archive

The header of a package, told without the reader: which octets open one, where the
archive then starts (`Opens`), and why other octets are refused (`Refused`). The reader
decides exactly this, and undoes the two writers `keyed` and `headed`.
-/

namespace ExtensionAudit

/-! ## Numbers in octets -/

namespace Bytes

/-- The octets of a number, least significant first, `width` of them. -/
def ofNatLE : Nat → Nat → Bytes
  | 0, _ => []
  | width + 1, n => UInt8.ofNat n :: ofNatLE width (n / 256)

@[simp] theorem length_ofNatLE (width n : Nat) : (ofNatLE width n).length = width := by
  induction width generalizing n with
  | zero => rfl
  | succ width ih => simp [ofNatLE, ih]

theorem toNatLE_ofNatLE {width n : Nat} (h : n < 256 ^ width) :
    toNatLE (ofNatLE width n) = n := by
  induction width generalizing n with
  | zero =>
    rw [Nat.pow_zero] at h
    have hn : n = 0 := by omega
    subst hn
    rfl
  | succ width ih =>
    have hq : n / 256 < 256 ^ width := by
      rw [Nat.pow_succ, Nat.mul_comm] at h
      exact Nat.div_lt_of_lt_mul h
    simp only [ofNatLE, toNatLE, UInt8.toNat_ofNat', ih hq]
    omega

/-- A slice that lies within the first part does not see the second. -/
theorem slice_append_left {offset count : Nat} {bytes : Bytes} (more : Bytes)
    (h : offset + count ≤ bytes.length) :
    slice offset count (bytes ++ more) = slice offset count bytes := by
  rw [slice, slice, List.drop_append_of_le_length (by omega),
    List.take_append_of_le_length (by rw [List.length_drop]; omega)]

/-- The middle part, found by the length of the first. -/
theorem slice_middle {offset count : Nat} {before part : Bytes} (after : Bytes)
    (ho : before.length = offset) (hc : part.length = count) :
    slice offset count (before ++ (part ++ after)) = part := by
  subst ho hc
  rw [slice, List.drop_left, List.take_left]

end Bytes

namespace Package

/-- The number that the four octets at an offset spell. -/
def numberAt (bytes : Bytes) (offset : Nat) : Nat :=
  Bytes.toNatLE (Bytes.slice offset 4 bytes)

theorem word_ok {bytes : Bytes} {offset : Nat} (h : offset + 4 ≤ bytes.length) :
    word bytes offset = .ok (numberAt bytes offset) := by
  rw [word, if_neg (by omega), numberAt]

theorem word_error {bytes : Bytes} {offset : Nat} (h : bytes.length < offset + 4) :
    word bytes offset = .error (.truncated offset) := by
  rw [word, if_pos h]

/-! ## The grammar -/

/-- The octets open a package whose archive starts at the offset. The sum is that of
unbounded numbers, so the offset may lie past the end. -/
inductive Opens (bytes : Bytes) : Nat → Prop
  | keyed : magic <+: bytes → numberAt bytes 4 = 2 → 16 ≤ bytes.length →
      Opens bytes (16 + numberAt bytes 8 + numberAt bytes 12)
  | headed : magic <+: bytes → numberAt bytes 4 = 3 → 12 ≤ bytes.length →
      Opens bytes (12 + numberAt bytes 8)

/-- The octets open no package, for this reason. A field that does not fit is named by
its offset, and it is the first of those that the version asks for. -/
inductive Refused (bytes : Bytes) : Fault → Prop
  | magic : ¬ magic <+: bytes → Refused bytes .notPackage
  | version : Package.magic <+: bytes → bytes.length < 8 → Refused bytes (.truncated 4)
  | firstLength : Package.magic <+: bytes → 8 ≤ bytes.length → bytes.length < 12 →
      numberAt bytes 4 = 2 ∨ numberAt bytes 4 = 3 → Refused bytes (.truncated 8)
  | secondLength : Package.magic <+: bytes → 12 ≤ bytes.length → bytes.length < 16 →
      numberAt bytes 4 = 2 → Refused bytes (.truncated 12)
  | unknown : Package.magic <+: bytes → 8 ≤ bytes.length → numberAt bytes 4 ≠ 2 →
      numberAt bytes 4 ≠ 3 → Refused bytes (.unknownVersion (numberAt bytes 4))

/-- A package with a key and a signature in front of its archive. -/
def keyed (key signature archive : Bytes) : Bytes :=
  magic ++ (Bytes.ofNatLE 4 2 ++ (Bytes.ofNatLE 4 key.length ++
    (Bytes.ofNatLE 4 signature.length ++ (key ++ (signature ++ archive)))))

/-- A package with a signed header in front of its archive. -/
def headed (header archive : Bytes) : Bytes :=
  magic ++ (Bytes.ofNatLE 4 3 ++ (Bytes.ofNatLE 4 header.length ++ (header ++ archive)))

/-! ## The reader decides the grammar -/

theorem payload_eq (bytes : Bytes) :
    payload bytes = (payloadOffset bytes).map bytes.drop := by
  rw [payload]
  cases payloadOffset bytes <;> rfl

theorem Opens.payloadOffset {bytes : Bytes} {offset : Nat} (h : Opens bytes offset) :
    Package.payloadOffset bytes = .ok offset := by
  cases h with
  | keyed hm hv hl =>
    have hm' : magic.isPrefixOf bytes = true := List.isPrefixOf_iff_prefix.mpr hm
    have h4 : word bytes 4 = .ok (numberAt bytes 4) := word_ok (by omega)
    have h8 : word bytes 8 = .ok (numberAt bytes 8) := word_ok (by omega)
    have h12 : word bytes 12 = .ok (numberAt bytes 12) := word_ok (by omega)
    simp [Package.payloadOffset, hm', h4, h8, h12, hv, Bind.bind, Except.bind]
  | headed hm hv hl =>
    have hm' : magic.isPrefixOf bytes = true := List.isPrefixOf_iff_prefix.mpr hm
    have h4 : word bytes 4 = .ok (numberAt bytes 4) := word_ok (by omega)
    have h8 : word bytes 8 = .ok (numberAt bytes 8) := word_ok (by omega)
    simp [Package.payloadOffset, hm', h4, h8, hv, Bind.bind, Except.bind]

theorem Refused.payloadOffset {bytes : Bytes} {fault : Fault} (h : Refused bytes fault) :
    Package.payloadOffset bytes = .error fault := by
  cases h with
  | magic hm =>
    have hm' : Package.magic.isPrefixOf bytes = false := by
      rw [← Bool.not_eq_true, List.isPrefixOf_iff_prefix]
      exact hm
    simp [Package.payloadOffset, hm']
  | version hm hl =>
    have hm' : Package.magic.isPrefixOf bytes = true := List.isPrefixOf_iff_prefix.mpr hm
    have h4 : word bytes 4 = .error (.truncated 4) := word_error hl
    simp [Package.payloadOffset, hm', h4, Bind.bind, Except.bind]
  | firstLength hm hl hu hv =>
    have hm' : Package.magic.isPrefixOf bytes = true := List.isPrefixOf_iff_prefix.mpr hm
    have h4 : word bytes 4 = .ok (numberAt bytes 4) := word_ok hl
    have h8 : word bytes 8 = .error (.truncated 8) := word_error hu
    rcases hv with hv | hv <;>
      simp [Package.payloadOffset, hm', h4, h8, hv, Bind.bind, Except.bind]
  | secondLength hm hl hu hv =>
    have hm' : Package.magic.isPrefixOf bytes = true := List.isPrefixOf_iff_prefix.mpr hm
    have h4 : word bytes 4 = .ok (numberAt bytes 4) := word_ok (by omega)
    have h8 : word bytes 8 = .ok (numberAt bytes 8) := word_ok hl
    have h12 : word bytes 12 = .error (.truncated 12) := word_error hu
    simp [Package.payloadOffset, hm', h4, h8, h12, hv, Bind.bind, Except.bind]
  | unknown hm hl h2 h3 =>
    have hm' : Package.magic.isPrefixOf bytes = true := List.isPrefixOf_iff_prefix.mpr hm
    have h4 : word bytes 4 = .ok (numberAt bytes 4) := word_ok hl
    simp [Package.payloadOffset, hm', h4, h2, h3, Bind.bind, Except.bind]

/-- The grammar leaves no octets out. -/
theorem opens_or_refused (bytes : Bytes) :
    (∃ offset, Opens bytes offset) ∨ ∃ fault, Refused bytes fault := by
  -- The cases are split in the order in which the reader comes to the fields.
  by_cases hm : magic <+: bytes
  · by_cases h8 : bytes.length < 8
    · exact .inr ⟨_, .version hm h8⟩
    · by_cases h2 : numberAt bytes 4 = 2
      · by_cases h12 : bytes.length < 12
        · exact .inr ⟨_, .firstLength hm (by omega) h12 (.inl h2)⟩
        · by_cases h16 : bytes.length < 16
          · exact .inr ⟨_, .secondLength hm (by omega) h16 h2⟩
          · exact .inl ⟨_, .keyed hm h2 (by omega)⟩
      · by_cases h3 : numberAt bytes 4 = 3
        · by_cases h12 : bytes.length < 12
          · exact .inr ⟨_, .firstLength hm (by omega) h12 (.inr h3)⟩
          · exact .inl ⟨_, .headed hm h3 (by omega)⟩
        · exact .inr ⟨_, .unknown hm (by omega) h2 h3⟩
  · exact .inr ⟨_, .magic hm⟩

theorem payloadOffset_eq_ok_iff {bytes : Bytes} {offset : Nat} :
    payloadOffset bytes = .ok offset ↔ Opens bytes offset := by
  constructor
  · intro h
    rcases opens_or_refused bytes with ⟨found, ho⟩ | ⟨fault, hr⟩
    · rw [ho.payloadOffset] at h
      cases h
      exact ho
    · rw [hr.payloadOffset] at h
      cases h
  · exact Opens.payloadOffset

theorem payloadOffset_eq_error_iff {bytes : Bytes} {fault : Fault} :
    payloadOffset bytes = .error fault ↔ Refused bytes fault := by
  constructor
  · intro h
    rcases opens_or_refused bytes with ⟨offset, ho⟩ | ⟨found, hr⟩
    · rw [ho.payloadOffset] at h
      cases h
    · rw [hr.payloadOffset] at h
      cases h
      exact hr
  · exact Refused.payloadOffset

theorem payload_eq_ok_iff {bytes archive : Bytes} :
    payload bytes = .ok archive ↔ ∃ offset, Opens bytes offset ∧
    archive = bytes.drop offset := by
  rw [payload_eq]
  cases h : payloadOffset bytes with
  | ok offset =>
    have ho := payloadOffset_eq_ok_iff.mp h
    constructor
    · intro he
      cases he
      exact ⟨offset, ho, rfl⟩
    · rintro ⟨found, hf, rfl⟩
      rw [hf.payloadOffset] at h
      cases h
      rfl
  | error fault =>
    constructor
    · intro he
      cases he
    · rintro ⟨found, hf, -⟩
      rw [hf.payloadOffset] at h
      cases h

theorem payload_eq_error_iff {bytes : Bytes} {fault : Fault} :
    payload bytes = .error fault ↔ Refused bytes fault := by
  rw [payload_eq, ← payloadOffset_eq_error_iff]
  cases payloadOffset bytes with
  | ok offset =>
    constructor <;>
    · intro h
      cases h
  | error found =>
    constructor <;>
    · intro h
      cases h
      rfl

theorem exists_opens_iff {bytes : Bytes} :
    (∃ offset, Opens bytes offset) ↔
      magic <+: bytes ∧ (numberAt bytes 4 = 2 ∧ 16 ≤ bytes.length ∨
        numberAt bytes 4 = 3 ∧ 12 ≤ bytes.length) := by
  constructor
  · rintro ⟨_, ⟨hm, hv, hl⟩ | ⟨hm, hv, hl⟩⟩
    · exact ⟨hm, .inl ⟨hv, hl⟩⟩
    · exact ⟨hm, .inr ⟨hv, hl⟩⟩
  · rintro ⟨hm, ⟨hv, hl⟩ | ⟨hv, hl⟩⟩
    · exact ⟨_, .keyed hm hv hl⟩
    · exact ⟨_, .headed hm hv hl⟩

theorem mapError_payload_iff {bytes : Bytes} {message : Text} :
    (payload bytes).mapError Fault.message = .error message ↔
      (¬ magic <+: bytes ∧ message = "Not a valid CRX file") ∨
      (∃ offset, Refused bytes (.truncated offset) ∧
        message = "Truncated CRX header: need 4 bytes at offset " ++ Text.ofNat offset) ∨
      (∃ version, Refused bytes (.unknownVersion version) ∧
        message = "Unsupported CRX version: " ++ Text.ofNat version) := by
  constructor
  · intro h
    cases hp : payload bytes with
    | ok archive =>
      rw [hp] at h
      cases h
    | error fault =>
      rw [hp] at h
      cases h
      have hr := payload_eq_error_iff.mp hp
      cases fault with
      | notPackage =>
        cases hr with
        | magic hm => exact .inl ⟨hm, rfl⟩
      | truncated offset => exact .inr (.inl ⟨offset, hr, rfl⟩)
      | unknownVersion version => exact .inr (.inr ⟨version, hr, rfl⟩)
  · rintro (⟨hm, rfl⟩ | ⟨offset, hr, rfl⟩ | ⟨version, hr, rfl⟩)
    · rw [payload_eq_error_iff.mpr (.magic hm)]
      rfl
    · rw [payload_eq_error_iff.mpr hr]
      rfl
    · rw [payload_eq_error_iff.mpr hr]
      rfl

/-! ## Writing and reading -/

theorem numberAt_append_left {bytes : Bytes} {offset : Nat} (more : Bytes)
    (h : offset + 4 ≤ bytes.length) : numberAt (bytes ++ more) offset =
    numberAt bytes offset := by
  rw [numberAt, numberAt, Bytes.slice_append_left more h]

/-- More octets at the end leave a package open at the same offset. -/
theorem Opens.append {bytes : Bytes} {offset : Nat} (h : Opens bytes offset)
    (more : Bytes) :
    Opens (bytes ++ more) offset := by
  cases h with
  | keyed hm hv hl =>
    have h4 : numberAt (bytes ++ more) 4 = numberAt bytes 4 :=
      numberAt_append_left more (by omega)
    have h8 : numberAt (bytes ++ more) 8 = numberAt bytes 8 :=
      numberAt_append_left more (by omega)
    have h12 : numberAt (bytes ++ more) 12 = numberAt bytes 12 :=
      numberAt_append_left more (by omega)
    rw [← h8, ← h12]
    exact .keyed (hm.trans (List.prefix_append _ _)) (by rw [h4, hv])
      (by rw [List.length_append]; omega)
  | headed hm hv hl =>
    have h4 : numberAt (bytes ++ more) 4 = numberAt bytes 4 :=
      numberAt_append_left more (by omega)
    have h8 : numberAt (bytes ++ more) 8 = numberAt bytes 8 :=
      numberAt_append_left more (by omega)
    rw [← h8]
    exact .headed (hm.trans (List.prefix_append _ _)) (by rw [h4, hv])
      (by rw [List.length_append]; omega)

/-- A number written between other octets is the one found there. -/
theorem numberAt_middle {offset n : Nat} {before : Bytes} (after : Bytes)
    (ho : before.length = offset) (hn : n < 2 ^ 32) :
    numberAt (before ++ (Bytes.ofNatLE 4 n ++ after)) offset = n := by
  rw [numberAt, Bytes.slice_middle after ho (Bytes.length_ofNatLE 4 n),
    Bytes.toNatLE_ofNatLE hn]

theorem payload_keyed {key signature : Bytes} (archive : Bytes)
    (hk : key.length < 2 ^ 32) (hs : signature.length < 2 ^ 32) :
    payload (keyed key signature archive) = .ok archive := by
  have hv : numberAt (keyed key signature archive) 4 = 2 :=
    numberAt_middle _ rfl (by decide)
  -- Bracketed anew, a number stands between what was written before it and what comes
  -- after.
  have h8 : numberAt (keyed key signature archive) 8 = key.length := by
    rw [keyed, ← List.append_assoc magic]
    exact numberAt_middle _ rfl hk
  have h12 : numberAt (keyed key signature archive) 12 = signature.length := by
    rw [keyed, ← List.append_assoc magic, ← List.append_assoc (magic ++ _)]
    exact numberAt_middle _ rfl hs
  have hl : 16 ≤ (keyed key signature archive).length := by
    simp [keyed, magic]
    omega
  refine payload_eq_ok_iff.mpr ⟨_, .keyed (List.prefix_append _ _) hv hl, ?_⟩
  rw [h8, h12]
  have hsplit : keyed key signature archive = (magic ++ Bytes.ofNatLE 4 2 ++
      Bytes.ofNatLE 4 key.length ++ Bytes.ofNatLE 4 signature.length ++
        key ++ signature) ++
      archive := by
    simp [keyed]
  rw [hsplit, List.drop_left']
  simp [magic]
  omega

theorem payload_headed {header : Bytes} (archive : Bytes) (hh : header.length < 2 ^ 32) :
    payload (headed header archive) = .ok archive := by
  have hv : numberAt (headed header archive) 4 = 3 := numberAt_middle _ rfl (by decide)
  have h8 : numberAt (headed header archive) 8 = header.length := by
    rw [headed, ← List.append_assoc magic]
    exact numberAt_middle _ rfl hh
  have hl : 12 ≤ (headed header archive).length := by
    simp [headed, magic]
    omega
  refine payload_eq_ok_iff.mpr ⟨_, .headed (List.prefix_append _ _) hv hl, ?_⟩
  rw [h8]
  have hsplit : headed header archive = (magic ++ Bytes.ofNatLE 4 3 ++
      Bytes.ofNatLE 4 header.length ++ header) ++ archive := by
    simp [headed]
  rw [hsplit, List.drop_left']
  simp [magic]
  omega

/-- **The reader decides the grammar.** It takes exactly the octets that open a package,
and gives what follows the offset, nothing if that lies past the end. It refuses all
others with the reason of the grammar, in these words. What the writers put behind a
header comes back, and octets added behind an archive are added to what is read. -/
theorem payload_grammar :
    (∀ bytes : Bytes, (∃ archive, payload bytes = .ok archive) ↔
      magic <+: bytes ∧ (numberAt bytes 4 = 2 ∧ 16 ≤ bytes.length ∨
        numberAt bytes 4 = 3 ∧ 12 ≤ bytes.length)) ∧
    (∀ bytes archive : Bytes, payload bytes = .ok archive ↔
      ∃ offset, Opens bytes offset ∧ archive = bytes.drop offset) ∧
    (∀ (bytes : Bytes) (fault : Fault), payload bytes = .error fault ↔
      Refused bytes fault) ∧
    (∀ (bytes : Bytes) (message : Text), (payload bytes).mapError Fault.message =
      .error message ↔
      (¬ magic <+: bytes ∧ message = "Not a valid CRX file") ∨
      (∃ offset, Refused bytes (.truncated offset) ∧
        message = "Truncated CRX header: need 4 bytes at offset " ++ Text.ofNat offset) ∨
      (∃ version, Refused bytes (.unknownVersion version) ∧
        message = "Unsupported CRX version: " ++ Text.ofNat version)) ∧
    (∀ (bytes : Bytes) (offset : Nat), Opens bytes offset → bytes.length ≤ offset →
      payload bytes = .ok []) ∧
    (∀ key signature archive : Bytes, key.length < 2 ^ 32 → signature.length < 2 ^ 32 →
      payload (keyed key signature archive) = .ok archive) ∧
    (∀ header archive : Bytes, header.length < 2 ^ 32 →
      payload (headed header archive) = .ok archive) ∧
    (∀ (bytes more : Bytes) (offset : Nat), Opens bytes offset → offset ≤ bytes.length →
      payload (bytes ++ more) = (payload bytes).map (· ++ more)) := by
  refine ⟨?_, fun _ _ => payload_eq_ok_iff, fun _ _ => payload_eq_error_iff, ?_, ?_,
    fun _ _ archive hk hs => payload_keyed archive hk hs,
    fun _ archive hh => payload_headed archive hh, ?_⟩
  · intro bytes
    simp only [payload_eq_ok_iff, ← exists_opens_iff]
    constructor
    · rintro ⟨_, offset, ho, -⟩
      exact ⟨offset, ho⟩
    · rintro ⟨offset, ho⟩
      exact ⟨_, offset, ho, rfl⟩
  · intro bytes message
    exact mapError_payload_iff
  · intro bytes offset ho hl
    exact payload_eq_ok_iff.mpr ⟨offset, ho, (List.drop_eq_nil_of_le hl).symm⟩
  · intro bytes more offset ho hl
    rw [payload_eq, payload_eq, ho.payloadOffset, (ho.append more).payloadOffset]
    simp [Except.map, List.drop_append_of_le_length hl]

/-- A header whose two lengths add up to more than 32 bits can hold. -/
def vastHeader : Bytes :=
  magic ++ [2, 0, 0, 0] ++ [0xFF, 0xFF, 0xFF, 0xFF] ++ [0xFF, 0xFF, 0xFF, 0xFF] ++ [0x50]

/-- Both kinds of package are read back, octets at the end are kept, and an archive that
would start beyond 32 bits is empty instead of starting at the remainder. -/
theorem payload_grammar_instances :
    payload (keyed [1, 2] [3] [0x50, 0x4B]) = .ok [0x50, 0x4B] ∧
    payload (headed [4, 5, 6] [0x50, 0x4B]) = .ok [0x50, 0x4B] ∧
    payload (headed [] [0x50] ++ [7]) = (payload (headed [] [0x50])).map (· ++ [7]) ∧
    payload vastHeader = .ok [] := by
  obtain ⟨-, -, -, -, hpast, hkeyed, hheaded, hmore⟩ := payload_grammar
  refine ⟨hkeyed _ _ _ (by decide) (by decide), hheaded _ _ (by decide), ?_, ?_⟩
  · exact hmore _ _ _ (.headed (by decide) (by decide) (by decide)) (by decide)
  · exact hpast _ _ (.keyed (by decide) (by decide) (by decide)) (by decide)

end Package

end ExtensionAudit
