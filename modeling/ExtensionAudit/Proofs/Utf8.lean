import ExtensionAudit.Text.Utf8
import Mathlib.Data.List.Basic
import Mathlib.Data.List.Infix
import Mathlib.Data.List.TakeWhile
import Mathlib.Tactic.SplitIfs

/-!
# Utf8 — octets and the texts they spell

Octets are read as a text just if they are the octets of that text and no surrogate
stands in it (`Utf8.decode_eq_ok_iff`), so a text has one spelling. The bounds on the
octet after a lead are what keeps a code point from having two: below them stand the
values that fewer octets spell, and above them the surrogates and what is no code point.
-/

namespace ExtensionAudit

namespace CodePoint

theorem val_ofNat {n : Nat} (h : n < 0x110000) : (ofNat n).val = n := by
  rw [ofNat, dif_pos h]

theorem ofNat_val (c : CodePoint) : ofNat c.val = c := by
  rw [ofNat, dif_pos c.valid]

theorem isSurrogate_eq_false_iff {c : CodePoint} : c.isSurrogate = false ↔
    c.val < 0xD800 ∨ 0xDFFF < c.val := by
  simp only [isSurrogate, isBetween, Bool.and_eq_false_iff, decide_eq_false_iff_not]
  omega

end CodePoint

/-! ## Texts without surrogates -/

namespace Text

/-- No surrogate stands in the text. -/
def IsScalar (t : Text) : Prop := ∀ c ∈ t, c.isSurrogate = false

@[simp] theorem isScalar_nil : IsScalar [] := by simp [IsScalar]

@[simp] theorem isScalar_cons {c : CodePoint} {t : Text} :
    IsScalar (c :: t) ↔ c.isSurrogate = false ∧ IsScalar t := List.forall_mem_cons

@[simp] theorem isScalar_append {t u : Text} : IsScalar (t ++ u) ↔
    IsScalar t ∧ IsScalar u :=
  List.forall_mem_append

@[simp] theorem isSurrogate_ofChar
    (c : Char) : (CodePoint.ofChar c).isSurrogate = false := by
  rw [CodePoint.isSurrogate, CodePoint.isBetween, Bool.and_eq_false_iff,
    decide_eq_false_iff_not, decide_eq_false_iff_not]
  show ¬ 0xD800 ≤ c.val.toNat ∨ ¬ c.val.toNat ≤ 0xDFFF
  rcases c.valid with h | h
  · left
    omega
  · right
    omega

@[simp] theorem isScalar_ofString (s : String) : IsScalar (ofString s) := by
  simp [IsScalar, ofString]

@[simp] theorem isScalar_ofNat (n : Nat) : IsScalar (ofNat n) := by
  simp [IsScalar, ofNat]

theorem isScalar_ofInt (n : Int) : IsScalar (ofInt n) := by
  cases n <;> simp [ofInt]

@[simp] theorem isScalar_rule (width : Nat) (c : Char) : IsScalar (rule width c) := by
  simp only [IsScalar, rule, List.mem_replicate]
  rintro _ ⟨-, rfl⟩
  exact isSurrogate_ofChar c

theorem isScalar_hex (width n : Nat) : IsScalar (hex width n) := by
  have hdigits : IsScalar ((Nat.toDigits 16 n).map CodePoint.ofChar) := by simp [IsScalar]
  simp [hex, hdigits]

theorem IsScalar.ite {p : Prop} [Decidable p] {t u : Text} (ht : IsScalar t)
    (hu : IsScalar u) :
    IsScalar (if p then t else u) := by
  by_cases hp : p
  · rwa [if_pos hp]
  · rwa [if_neg hp]

theorem IsScalar.take {t : Text} (h : IsScalar t) (n : Nat) : IsScalar (t.take n) :=
  fun c hc => h c (List.mem_of_mem_take hc)

theorem IsScalar.drop {t : Text} (h : IsScalar t) (n : Nat) : IsScalar (t.drop n) :=
  fun c hc => h c (List.mem_of_mem_drop hc)

theorem isScalar_join {separator : Text} (h : IsScalar separator) (parts : List Text) :
    IsScalar (join separator parts) ↔ ∀ part ∈ parts, IsScalar part := by
  induction parts with
  | nil => simp [join]
  | cons part rest ih =>
    cases rest with
    | nil => simp [join]
    | cons next more => simp [join, h, ih]

theorem exists_encodeStrict {t : Text} : (∃ octets, Utf8.encodeStrict t = .ok octets) ↔
    IsScalar t := by
  have hrest : t.drop (t.takeWhile fun c => !c.isSurrogate).length = [] ↔ IsScalar t := by
    rw [List.drop_eq_nil_iff]
    constructor
    · intro hlength
      have hsame := (List.takeWhile_prefix _).eq_of_length_le hlength
      simpa [IsScalar] using List.takeWhile_eq_self_iff.mp hsame
    · intro hscalar
      have hsame : (t.takeWhile fun c => !c.isSurrogate) = t :=
        List.takeWhile_eq_self_iff.mpr (by simpa [IsScalar] using hscalar)
      rw [hsame]
  rw [← hrest]
  by_cases h : t.drop (t.takeWhile fun c => !c.isSurrogate).length = []
  · simp [Utf8.encodeStrict, h]
  · simp only [Utf8.encodeStrict, beq_iff_eq, h, if_false, reduceCtorEq, exists_false]

end Text

namespace Utf8

/-! ## Sequences -/

/-- The octets that complete a sequence: the first one between two bounds, every other
one a continuation. -/
def IsTail (low high : UInt8) : Bytes → Prop
  | [] => True
  | b :: rest => (low ≤ b ∧ b ≤ high) ∧ IsTail 0x80 0xBF rest

theorem isTail_cons {low high b : UInt8} {rest : Bytes} :
    IsTail low high (b :: rest) ↔ (low.toNat ≤ b.toNat ∧ b.toNat ≤ high.toNat) ∧
    IsTail 0x80 0xBF rest := Iff.rfl

/-- The bits of a sequence with those of its tail. -/
def withTail (bits : Nat) (tail : Bytes) : Nat :=
  tail.foldl (fun bits b => bits * 64 + (b.toNat - 0x80)) bits

theorem withTail_cons (bits : Nat) (b : UInt8) (tail : Bytes) :
    withTail bits (b :: tail) = withTail (bits * 64 + (b.toNat - 0x80)) tail :=
      List.foldl_cons ..

@[simp] theorem withTail_nil (bits : Nat) : withTail bits [] = bits := rfl

theorem complete_eq_scalar_iff {run : Bytes} {bits missing : Nat} {low high : UInt8}
    {rest after : Bytes} {c : CodePoint} :
    complete run bits missing low high rest = (.scalar c, after) ↔
      ∃ tail, (tail.length = missing ∧ IsTail low high tail) ∧ rest = tail ++ after ∧
        c = CodePoint.ofNat (withTail bits tail) := by
  -- The induction is on the octets that are missing. After the first of them every one
  -- has the same bounds, so these are generalized with what is read.
  induction missing generalizing run bits low high rest with
  | zero =>
    simp only [complete, Prod.mk.injEq, Piece.scalar.injEq, List.length_eq_zero_iff]
    constructor
    · intro h
      obtain ⟨hc, hrest⟩ := h
      exact ⟨[], ⟨rfl, trivial⟩, hrest, hc.symm⟩
    · intro h
      obtain ⟨tail, ⟨hnil, -⟩, hrest, hc⟩ := h
      subst hnil
      exact ⟨hc.symm, hrest⟩
  | succ missing ih =>
    cases rest with
    | nil =>
      constructor
      · intro h
        simp [complete] at h
      · intro h
        obtain ⟨tail, ⟨hlength, -⟩, hrest, -⟩ := h
        cases tail with
        | nil => simp at hlength
        | cons b more => simp at hrest
    | cons b rest =>
      rw [complete]
      by_cases hb : low ≤ b ∧ b ≤ high
      · rw [if_pos (by simpa using hb), ih]
        constructor
        · intro h
          obtain ⟨tail, ⟨hlength, htail⟩, hrest, hc⟩ := h
          exact ⟨b :: tail, ⟨by simp [hlength], hb, htail⟩, by simp [hrest],
            by rw [withTail_cons, hc]⟩
        · intro h
          obtain ⟨tail, ⟨hlength, htail⟩, hrest, hc⟩ := h
          cases tail with
          | nil => simp at hlength
          | cons d more =>
            rw [List.cons_append, List.cons.injEq] at hrest
            obtain ⟨hd, hrest⟩ := hrest
            subst hd
            rw [withTail_cons] at hc
            exact ⟨more, ⟨Nat.succ.inj hlength, htail.2⟩, hrest, hc⟩
      · rw [if_neg (by simpa using hb)]
        constructor
        · intro h
          simp at h
        · intro h
          obtain ⟨tail, ⟨hlength, htail⟩, hrest, -⟩ := h
          cases tail with
          | nil => simp at hlength
          | cons d more =>
            rw [List.cons_append, List.cons.injEq] at hrest
            obtain ⟨hd, hrest⟩ := hrest
            subst hd
            exact absurd htail.1 hb

/-- The sequences of two, three and four octets by their leads, and what may follow the
lead. -/
theorem form_eq_some_iff {lead low high : UInt8} {missing : Nat} :
    form lead = some (missing, low, high) ↔
      (missing = 1 ∧ (0xC2 ≤ lead.toNat ∧ lead.toNat ≤ 0xDF) ∧ low.toNat = 0x80 ∧
        high.toNat = 0xBF) ∨
      (missing = 2 ∧ (0xE0 ≤ lead.toNat ∧ lead.toNat ≤ 0xEF) ∧
        (lead.toNat = 0xE0 ∧ low.toNat = 0xA0 ∨ lead.toNat ≠ 0xE0 ∧ low.toNat = 0x80) ∧
        (lead.toNat = 0xED ∧ high.toNat = 0x9F ∨ lead.toNat ≠ 0xED ∧ high.toNat = 0xBF)) ∨
      (missing = 3 ∧ (0xF0 ≤ lead.toNat ∧ lead.toNat ≤ 0xF4) ∧
        (lead.toNat = 0xF0 ∧ low.toNat = 0x90 ∨ lead.toNat ≠ 0xF0 ∧ low.toNat = 0x80) ∧
        (lead.toNat = 0xF4 ∧ high.toNat = 0x8F ∨ lead.toNat ≠ 0xF4 ∧
          high.toNat = 0xBF)) := by
  simp only [form, Bool.and_eq_true, decide_eq_true_eq, beq_iff_eq,
    UInt8.le_iff_toNat_le, ← UInt8.toNat_inj, UInt8.reduceToNat]
  generalize lead.toNat = lead
  split_ifs
  iterate 7
    · simp only [Option.some.injEq, Prod.mk.injEq, ← UInt8.toNat_inj, UInt8.reduceToNat]
      omega
  · simp only [false_iff]
    omega

/-! ## The octets of a code point -/

theorem eq_ofNat {b : UInt8} {n : Nat} (h : b.toNat = n) : b = UInt8.ofNat n := by
  rw [← h, UInt8.ofNat_toNat]

variable {c : CodePoint} {lead b₁ b₂ b₃ : UInt8}

theorem encodeChar_one (h : c.val < 0x80) (hlead : lead.toNat = c.val) :
    encodeChar c = [lead] := by
  rw [encodeChar, if_pos h, eq_ofNat hlead]

theorem encodeChar_two (hlow : 0x80 ≤ c.val) (hhigh : c.val < 0x800)
    (hlead : lead.toNat = 0xC0 + c.val / 64) (h₁ : b₁.toNat = 0x80 + c.val % 64) :
    encodeChar c = [lead, b₁] := by
  rw [encodeChar, if_neg (by omega), if_pos hhigh, eq_ofNat hlead, eq_ofNat h₁]

theorem encodeChar_three (hlow : 0x800 ≤ c.val) (hhigh : c.val < 0x10000)
    (hlead : lead.toNat = 0xE0 + c.val / 4096) (h₁ : b₁.toNat = 0x80 + c.val / 64 % 64)
    (h₂ : b₂.toNat = 0x80 + c.val % 64) : encodeChar c = [lead, b₁, b₂] := by
  rw [encodeChar, if_neg (by omega), if_neg (by omega), if_pos hhigh, eq_ofNat hlead,
    eq_ofNat h₁, eq_ofNat h₂]

theorem encodeChar_four (hlow : 0x10000 ≤ c.val)
    (hlead : lead.toNat = 0xF0 + c.val / 262144)
    (h₁ : b₁.toNat = 0x80 + c.val / 4096 % 64) (h₂ : b₂.toNat = 0x80 + c.val / 64 % 64)
    (h₃ : b₃.toNat = 0x80 + c.val % 64) : encodeChar c = [lead, b₁, b₂, b₃] := by
  rw [encodeChar, if_neg (by omega), if_neg (by omega), if_neg (by omega),
    eq_ofNat hlead, eq_ofNat h₁, eq_ofNat h₂, eq_ofNat h₃]

/-- A lead and the tail its form allows are the octets of the value they spell, which is
no surrogate. -/
theorem encodeChar_of_form {low high : UInt8} {missing : Nat}
    {tail : Bytes} (hform : form lead = some (missing, low, high))
    (hlength : tail.length = missing) (htail : IsTail low high tail)
    (hc : c = CodePoint.ofNat (withTail (lead.toNat % Nat.pow 2 (6 - missing)) tail)) :
    c.isSurrogate = false ∧ encodeChar c = lead :: tail := by
  rw [CodePoint.isSurrogate_eq_false_iff]
  rw [form_eq_some_iff] at hform
  -- by the number of octets after the lead
  rcases hform with ⟨rfl, hlead, hlow, hhigh⟩ | ⟨rfl, hlead, hlow, hhigh⟩ |
    ⟨rfl, hlead, hlow, hhigh⟩
  · obtain ⟨b₁, rfl⟩ := List.length_eq_one_iff.mp hlength
    have hpow : Nat.pow 2 (6 - 1) = 32 := rfl
    simp only [IsTail, UInt8.le_iff_toNat_le] at htail
    simp only [withTail_cons, withTail_nil, hpow] at hc
    have hval : c.val = lead.toNat % 32 * 64 + (b₁.toNat - 0x80) := by
      rw [hc]
      exact CodePoint.val_ofNat (by omega)
    exact ⟨by omega, encodeChar_two (by omega) (by omega) (by omega) (by omega)⟩
  · obtain ⟨b₁, b₂, rfl⟩ := List.length_eq_two.mp hlength
    have hpow : Nat.pow 2 (6 - 2) = 16 := rfl
    simp only [IsTail, UInt8.le_iff_toNat_le, UInt8.reduceToNat] at htail
    simp only [withTail_cons, withTail_nil, hpow] at hc
    have hval : c.val =
        (lead.toNat % 16 * 64 + (b₁.toNat - 0x80)) * 64 + (b₂.toNat - 0x80) := by
      rw [hc]
      exact CodePoint.val_ofNat (by omega)
    exact ⟨by omega,
      encodeChar_three (by omega) (by omega) (by omega) (by omega) (by omega)⟩
  · obtain ⟨b₁, b₂, b₃, rfl⟩ := List.length_eq_three.mp hlength
    have hpow : Nat.pow 2 (6 - 3) = 8 := rfl
    simp only [IsTail, UInt8.le_iff_toNat_le, UInt8.reduceToNat] at htail
    simp only [withTail_cons, withTail_nil, hpow] at hc
    have hval : c.val =
        ((lead.toNat % 8 * 64 + (b₁.toNat - 0x80)) * 64 + (b₂.toNat - 0x80)) * 64 +
        (b₃.toNat - 0x80) := by
      rw [hc]
      exact CodePoint.val_ofNat (by omega)
    exact ⟨by omega,
      encodeChar_four (by omega) (by omega) (by omega) (by omega) (by omega)⟩

/-- A scalar value that is read is the one whose octets stand there. -/
theorem next_sound {rest after : Bytes} (h : next lead rest = (.scalar c, after)) :
    c.isSurrogate = false ∧ lead :: rest = encodeChar c ++ after := by
  rw [next] at h
  by_cases hascii : lead < 0x80
  · rw [if_pos hascii] at h
    rw [UInt8.lt_iff_toNat_lt] at hascii
    simp only [Prod.mk.injEq, Piece.scalar.injEq] at h
    obtain ⟨hc, rfl⟩ := h
    have hsmall : lead.toNat < 128 := hascii
    have hval : c.val = lead.toNat := by rw [← hc, CodePoint.val_ofNat (by omega)]
    rw [CodePoint.isSurrogate_eq_false_iff, encodeChar_one (by omega) hval.symm]
    exact ⟨by omega, rfl⟩
  · rw [if_neg hascii] at h
    split at h
    · cases h
    · next missing low high hform =>
      obtain ⟨tail, ⟨hlength, htail⟩, rfl, hc⟩ := complete_eq_scalar_iff.mp h
      obtain ⟨hscalar, hencode⟩ := encodeChar_of_form hform hlength htail hc
      rw [hencode]
      exact ⟨hscalar, rfl⟩

/-- One octet or another. -/
theorem exists_bound (p : Prop) (m n : UInt8) :
    ∃ b : UInt8, p ∧ b.toNat = m.toNat ∨ ¬ p ∧ b.toNat = n.toNat := by
  by_cases h : p
  · exact ⟨m, .inl ⟨h, rfl⟩⟩
  · exact ⟨n, .inr ⟨h, rfl⟩⟩

theorem exists_octet {n : Nat} (h : n < 256) : ∃ b : UInt8, b.toNat = n :=
  ⟨UInt8.ofNat n, by rw [UInt8.toNat_ofNat', Nat.mod_eq_of_lt h]⟩

/-- A lead and a tail of its form are read as the value they spell. -/
theorem next_of_form {low high : UInt8} {missing : Nat} {tail : Bytes}
    (hlead : 0x80 ≤ lead.toNat) (hform : form lead = some (missing, low, high))
    (hlength : tail.length = missing) (htail : IsTail low high tail)
    (hval : withTail (lead.toNat % Nat.pow 2 (6 - missing)) tail = c.val)
    (rest : Bytes) :
    next lead (tail ++ rest) = (.scalar c, rest) := by
  rw [next, if_neg (by rw [UInt8.lt_iff_toNat_lt]; exact Nat.not_lt.mpr hlead), hform]
  exact complete_eq_scalar_iff.mpr ⟨tail, ⟨hlength, htail⟩, rfl,
    by rw [hval, CodePoint.ofNat_val]⟩

/-- A scalar value of several octets is spelled by a lead and a tail of its form. -/
theorem exists_form (h : c.isSurrogate = false) (hlong : 0x80 ≤ c.val) :
    ∃ lead low high tail, encodeChar c = lead :: tail ∧ 0x80 ≤ lead.toNat ∧
      form lead = some (tail.length, low, high) ∧ IsTail low high tail ∧
        withTail (lead.toNat % Nat.pow 2 (6 - tail.length)) tail = c.val := by
  rw [CodePoint.isSurrogate_eq_false_iff] at h
  have hvalid := c.valid
  -- The bounds of the second octet depend on the lead: they keep out what a shorter
  -- sequence spells, the surrogates, and what is beyond the last code point.
  by_cases htwo : c.val < 0x800
  · obtain ⟨lead, hlead⟩ := exists_octet (by omega : 0xC0 + c.val / 64 < 256)
    obtain ⟨b₁, h₁⟩ := exists_octet (by omega : 0x80 + c.val % 64 < 256)
    have hform : form lead = some (1, 0x80, 0xBF) :=
      form_eq_some_iff.mpr (.inl ⟨rfl, by omega, rfl, rfl⟩)
    have htail : IsTail 0x80 0xBF [b₁] := by
      simp only [isTail_cons, UInt8.reduceToNat]
      exact ⟨by omega, trivial⟩
    refine ⟨lead, 0x80, 0xBF, [b₁], encodeChar_two hlong htwo hlead h₁, by omega,
      hform, htail, ?_⟩
    show (lead.toNat % 32) * 64 + (b₁.toNat - 0x80) = c.val
    omega
  by_cases hthree : c.val < 0x10000
  · obtain ⟨lead, hlead⟩ := exists_octet (by omega : 0xE0 + c.val / 4096 < 256)
    obtain ⟨b₁, h₁⟩ := exists_octet (by omega : 0x80 + c.val / 64 % 64 < 256)
    obtain ⟨b₂, h₂⟩ := exists_octet (by omega : 0x80 + c.val % 64 < 256)
    obtain ⟨low, hlow⟩ := exists_bound (lead.toNat = 0xE0) 0xA0 0x80
    obtain ⟨high, hhigh⟩ := exists_bound (lead.toNat = 0xED) 0x9F 0xBF
    have hform : form lead = some (2, low, high) :=
      form_eq_some_iff.mpr (.inr (.inl ⟨rfl, by omega, hlow, hhigh⟩))
    have htail : IsTail low high [b₁, b₂] := by
      simp only [isTail_cons, UInt8.reduceToNat] at hlow hhigh ⊢
      exact ⟨by omega, by omega, trivial⟩
    refine ⟨lead, low, high, [b₁, b₂], encodeChar_three (by omega) hthree hlead h₁ h₂,
      by omega, hform, htail, ?_⟩
    show ((lead.toNat % 16) * 64 + (b₁.toNat - 0x80)) * 64 + (b₂.toNat - 0x80) = c.val
    omega
  · obtain ⟨lead, hlead⟩ := exists_octet (by omega : 0xF0 + c.val / 262144 < 256)
    obtain ⟨b₁, h₁⟩ := exists_octet (by omega : 0x80 + c.val / 4096 % 64 < 256)
    obtain ⟨b₂, h₂⟩ := exists_octet (by omega : 0x80 + c.val / 64 % 64 < 256)
    obtain ⟨b₃, h₃⟩ := exists_octet (by omega : 0x80 + c.val % 64 < 256)
    obtain ⟨low, hlow⟩ := exists_bound (lead.toNat = 0xF0) 0x90 0x80
    obtain ⟨high, hhigh⟩ := exists_bound (lead.toNat = 0xF4) 0x8F 0xBF
    have hform : form lead = some (3, low, high) :=
      form_eq_some_iff.mpr (.inr (.inr ⟨rfl, by omega, hlow, hhigh⟩))
    have htail : IsTail low high [b₁, b₂, b₃] := by
      simp only [isTail_cons, UInt8.reduceToNat] at hlow hhigh ⊢
      exact ⟨by omega, by omega, by omega, trivial⟩
    refine ⟨lead, low, high, [b₁, b₂, b₃], encodeChar_four (by omega) hlead h₁ h₂ h₃,
      by omega, hform, htail, ?_⟩
    show (((lead.toNat % 8) * 64 + (b₁.toNat - 0x80)) * 64 + (b₂.toNat - 0x80)) * 64 +
        (b₃.toNat - 0x80) = c.val
    omega

/-- The octets of a scalar value are read as it. -/
theorem next_complete (h : c.isSurrogate = false) :
    ∃ lead tail, encodeChar c = lead :: tail ∧ ∀ rest, next lead (tail ++ rest) =
      (.scalar c, rest) := by
  by_cases hone : c.val < 0x80
  · obtain ⟨lead, hlead⟩ := exists_octet (by omega : c.val < 256)
    refine ⟨lead, [], encodeChar_one hone hlead, fun rest => ?_⟩
    rw [next, if_pos (by rw [UInt8.lt_iff_toNat_lt, hlead]; exact hone), hlead,
      CodePoint.ofNat_val]
    rfl
  · obtain ⟨lead, low, high, tail, hencode, hlead, hform, htail, hval⟩ :=
      exists_form h (Nat.not_lt.mp hone)
    exact ⟨lead, tail, hencode, next_of_form hlead hform rfl htail hval⟩

/-! ## Texts -/

theorem pieces_encode {t : Text} (h : t.IsScalar) (rest : Bytes) :
    pieces (encode t ++ rest) = t.map .scalar ++ pieces rest := by
  induction t with
  | nil => rfl
  | cons c t ih =>
    rw [Text.isScalar_cons] at h
    obtain ⟨lead, tail, hchar, hnext⟩ := next_complete h.1
    have hencode : encode (c :: t) ++ rest = lead :: (tail ++ (encode t ++ rest)) := by
      rw [encode, List.flatMap_cons, hchar, List.append_assoc]
      rfl
    rw [hencode, pieces, hnext, ih h.2]
    rfl

theorem pieces_encode_self {t : Text} (h : t.IsScalar) :
    pieces (encode t) = t.map .scalar := by
  have hpieces := pieces_encode h []
  rwa [List.append_nil, pieces, List.append_nil] at hpieces

theorem ofPieces_eq_ok_iff {position : Nat} {found : List Piece} {t : Text} :
    ofPieces position found = .ok t ↔ found = t.map .scalar := by
  induction found generalizing position t with
  | nil => cases t <;> simp [ofPieces]
  | cons piece rest ih =>
    cases piece with
    | malformed run problem => cases t <;> simp [ofPieces]
    | scalar c =>
      simp only [ofPieces]
      generalize position + _ = later
      cases t with
      | nil => cases ofPieces later rest <;> simp [Except.map]
      | cons d t =>
        have hrest : ofPieces later rest = .ok t ↔ rest = t.map .scalar := ih
        rw [List.map_cons, List.cons.injEq, Piece.scalar.injEq, ← hrest]
        cases ofPieces later rest <;> simp [Except.map]

theorem exists_of_pieces {bytes : Bytes} {t : Text} (h : pieces bytes = t.map .scalar) :
    t.IsScalar ∧ bytes = encode t := by
  induction t generalizing bytes with
  | nil =>
    cases bytes with
    | nil => exact ⟨Text.isScalar_nil, rfl⟩
    | cons lead rest => simp [pieces] at h
  | cons c t ih =>
    cases bytes with
    | nil => simp [pieces] at h
    | cons lead rest =>
      rw [pieces, List.map_cons, List.cons.injEq] at h
      obtain ⟨hchar, hbytes⟩ := next_sound (Prod.ext h.1 rfl)
      obtain ⟨hscalar, hrest⟩ := ih h.2
      refine ⟨Text.isScalar_cons.mpr ⟨hchar, hscalar⟩, ?_⟩
      rw [hbytes]
      exact congrArg (encodeChar c ++ ·) hrest

/-- Octets are read as a text just if they are those of the text, and it has no
surrogates. -/
theorem decode_eq_ok_iff {bytes : Bytes} {t : Text} : decode bytes = .ok t ↔
    t.IsScalar ∧ bytes = encode t := by
  rw [decode, ofPieces_eq_ok_iff]
  constructor
  · exact exists_of_pieces
  · intro h
    obtain ⟨hscalar, hbytes⟩ := h
    rw [hbytes, pieces_encode_self hscalar]

/-! ## Marks -/

/-- What octets spell: a text without surrogates, perhaps after a byte order mark. -/
inductive Spells : Bytes → Text → Prop
  | plain {t : Text} (h : t.IsScalar) : Spells (encode t) t
  | marked {t : Text} (h : t.IsScalar) : Spells (signature ++ encode t) t

theorem signature_eq_encode : signature = encode [CodePoint.byteOrderMark] := by decide

/-- A text whose octets begin with a mark begins with the mark. -/
theorem exists_of_encode_eq_signature_append {t : Text} {rest : Bytes} (h : t.IsScalar)
    (hencode : encode t = signature ++ rest) :
    ∃ u : Text, t = CodePoint.byteOrderMark :: u ∧ u.IsScalar ∧ rest = encode u := by
  have hmark : Text.IsScalar [CodePoint.byteOrderMark] :=
    List.forall_mem_singleton.mpr (by decide)
  have hpieces : t.map .scalar = [.scalar CodePoint.byteOrderMark] ++ pieces rest := by
    rw [← pieces_encode_self h, hencode, signature_eq_encode, pieces_encode hmark]
    rfl
  cases t with
  | nil => cases hpieces
  | cons c u =>
    rw [List.map_cons, List.singleton_append, List.cons.injEq,
      Piece.scalar.injEq] at hpieces
    obtain ⟨hu, hrest⟩ := exists_of_pieces hpieces.2.symm
    exact ⟨u, by rw [hpieces.1], hu, hrest⟩

/-- After a mark stands the text, or the text begins with the mark. -/
theorem spells_signature_append {rest : Bytes} {t : Text}
    (h : Spells (signature ++ rest) t) :
    Spells rest t ∨ t.head? = some CodePoint.byteOrderMark := by
  generalize hcontent : signature ++ rest = content at h
  cases h with
  | plain ht =>
    obtain ⟨u, hu, _⟩ := exists_of_encode_eq_signature_append ht hcontent.symm
    rw [hu]
    exact .inr rfl
  | marked ht =>
    rw [List.append_cancel_left hcontent]
    exact .inl (.plain ht)

theorem dropSignature_append (rest : Bytes) :
    dropSignature (signature ++ rest) = rest := by
  rw [dropSignature, if_pos (by simp [List.isPrefixOf_iff_prefix])]
  rfl

/-- Octets that break off inside the mark are not those of a text. -/
theorem eq_nil_of_breaksOff {t : Text} (h : t.IsScalar) (hopens : encode t <+: signature)
    (hne : encode t ≠ signature) : t = [] := by
  have hpieces := pieces_encode_self h
  have hinits : encode t = [] ∨ encode t = [0xEF] ∨ encode t = [0xEF, 0xBB] ∨
      encode t = signature := by
    have hmem := (List.mem_inits (encode t) signature).mpr hopens
    simpa [signature, List.inits] using hmem
  cases t with
  | nil => rfl
  | cons c u =>
    rcases hinits with hencode | hencode | hencode | hencode
    · rw [hencode, pieces] at hpieces
      cases hpieces
    · rw [hencode] at hpieces
      simp [pieces, next, form, complete] at hpieces
    · rw [hencode] at hpieces
      simp [pieces, next, form, complete] at hpieces
    · exact absurd hencode hne

/-- What a text without surrogates spells, without the mark. -/
theorem decode_dropSignature_of_spells {content : Bytes} {t : Text}
    (h : Spells content t) :
    ∃ u, decode (dropSignature content) = .ok u ∧
      (t = u ∨ t = CodePoint.byteOrderMark :: u) := by
  cases h with
  | marked h =>
    refine ⟨t, ?_, .inl rfl⟩
    rw [dropSignature_append, decode_eq_ok_iff]
    exact ⟨h, rfl⟩
  | plain h =>
    by_cases hmark : signature <+: encode t
    · obtain ⟨rest, hrest⟩ := hmark
      obtain ⟨u, hu, hscalar, hencode⟩ :=
        exists_of_encode_eq_signature_append h hrest.symm
      refine ⟨u, ?_, .inr hu⟩
      rw [← hrest, dropSignature_append, decode_eq_ok_iff]
      exact ⟨hscalar, hencode⟩
    · refine ⟨t, ?_, .inl rfl⟩
      rw [dropSignature, if_neg (by simpa [List.isPrefixOf_iff_prefix] using hmark)]
      split
      · rename_i hopens
        have hne : encode t ≠ signature := fun heq => hmark (heq ▸ List.prefix_refl _)
        rw [eq_nil_of_breaksOff h (List.isPrefixOf_iff_prefix.mp hopens) hne]
        exact decode_eq_ok_iff.mpr ⟨Text.isScalar_nil, rfl⟩
      · exact decode_eq_ok_iff.mpr ⟨h, rfl⟩

/-- What is read without the mark is spelled, unless the octets break off inside the
mark. -/
theorem spells_of_decode_dropSignature {content : Bytes} {t : Text}
    (h : decode (dropSignature content) = .ok t) :
    Spells content t ∨ t = [] := by
  rw [dropSignature] at h
  split at h
  · rename_i hmark
    obtain ⟨rest, rfl⟩ := List.isPrefixOf_iff_prefix.mp hmark
    obtain ⟨hscalar, hrest⟩ := decode_eq_ok_iff.mp h
    have hdrop : (signature ++ rest).drop 3 = rest := rfl
    rw [hdrop] at hrest
    rw [hrest]
    exact .inl (.marked hscalar)
  · split at h
    · rw [decode, pieces, ofPieces_eq_ok_iff] at h
      exact .inr (List.map_eq_nil_iff.mp h.symm)
    · obtain ⟨hscalar, hcontent⟩ := decode_eq_ok_iff.mp h
      rw [hcontent]
      exact .inl (.plain hscalar)

end Utf8

end ExtensionAudit
