import ExtensionAudit.Text.Blank
import ExtensionAudit.Text.Casing
import Mathlib.Data.List.DropRight
import Mathlib.Tactic.Common

/-!
# Text — blanks and small letters

Trimming a text takes blanks from its ends and nothing else. Among ASCII characters
small letters are what one expects; the only other character that an ASCII letter is the
small letter of is the sign for kelvin, so a text whose small letters are ASCII and not
`k` is an ASCII text (`lower_eq_iff`).
-/

namespace ExtensionAudit

namespace Text

/-! ## Blanks -/

theorem trimEnd_eq_rdropWhile
    (t : Text) : trimEnd t = t.rdropWhile CodePoint.isBlank := rfl

theorem trimEnd_append_blanks {right : Text}
    (h : ∀ c ∈ right, c.isBlank = true) (t : Text) :
    trimEnd (t ++ right) = trimEnd t := by
  induction right using List.reverseRecOn with
  | nil => rw [List.append_nil]
  | append_singleton more c ih =>
    rw [List.forall_mem_append] at h
    rw [← List.append_assoc, trimEnd_eq_rdropWhile,
      List.rdropWhile_concat_pos _ _ _ (h.2 c (by simp))]
    exact ih h.1

/-- What comes before a character that is not blank stays as it is. -/
theorem trimEnd_append_cons {c : CodePoint} (hc : c.isBlank = false) (t rest : Text) :
    trimEnd (t ++ c :: rest) = t ++ c :: trimEnd rest := by
  induction rest using List.reverseRecOn with
  | nil => exact List.rdropWhile_concat_neg _ _ _ (by simp [hc])
  | append_singleton more d ih =>
    rw [← List.cons_append, ← List.append_assoc, trimEnd_eq_rdropWhile,
      trimEnd_eq_rdropWhile]
    by_cases hd : d.isBlank = true
    · rw [List.rdropWhile_concat_pos _ _ _ hd, List.rdropWhile_concat_pos _ _ _ hd]
      exact ih
    · rw [List.rdropWhile_concat_neg _ _ _ hd, List.rdropWhile_concat_neg _ _ _ hd]
      simp

theorem trim_append_blanks {left right : Text}
    (hl : ∀ c ∈ left, c.isBlank = true) (hr : ∀ c ∈ right, c.isBlank = true)
    (t : Text) : trim (left ++ t ++ right) = trim t := by
  have hleft : left.dropWhile CodePoint.isBlank = [] := List.dropWhile_eq_nil_iff.mpr hl
  have hright : right.dropWhile CodePoint.isBlank = [] := List.dropWhile_eq_nil_iff.mpr hr
  rw [trim, trim, List.append_assoc, List.dropWhile_append, hleft, List.isEmpty_nil,
    if_pos rfl, List.dropWhile_append]
  by_cases ht : (t.dropWhile CodePoint.isBlank).isEmpty = true
  · rw [if_pos ht, hright, List.isEmpty_iff.mp ht]
  · rw [if_neg ht, trimEnd_append_blanks hr]

/-- A text that ends in a character that is not blank is cut only at its beginning. -/
theorem trimEnd_eq_self {t : Text} (h : ∀ c ∈ t.getLast?, c.isBlank = false) :
    trimEnd t = t := by
  rw [trimEnd_eq_rdropWhile, List.rdropWhile_eq_self_iff]
  intro hne
  rw [h _ (List.getLast?_eq_some_getLast hne)]
  exact Bool.false_ne_true

theorem trim_eq_self {t : Text} (h : ∀ c ∈ t, c.isBlank = false) : trim t = t := by
  have hstart : t.dropWhile CodePoint.isBlank = t := by
    rw [List.dropWhile_eq_self_iff]
    intro hl
    simp [h _ (List.getElem_mem hl)]
  rw [trim, hstart]
  exact trimEnd_eq_self fun c hc => h c (List.mem_of_getLast? hc)

/-- Trimming leaves alone what stands around a character that is not blank. -/
theorem trim_append_cons {c : CodePoint} (hc : c.isBlank = false) {t : Text}
    (h : ∀ d ∈ t.getLast?, d.isBlank = false) (rest : Text) :
    trim (t ++ c :: rest) = trim t ++ c :: trimEnd rest := by
  have hstop : (c :: rest).dropWhile CodePoint.isBlank = c :: rest :=
    List.dropWhile_cons_of_neg (by simp [hc])
  rw [trim, trim, List.dropWhile_append, hstop]
  cases ht : t.dropWhile CodePoint.isBlank with
  | nil => exact trimEnd_append_cons hc [] rest
  | cons d more =>
    have hend : trimEnd (d :: more) = d :: more := by
      refine trimEnd_eq_self fun e he => h e ?_
      have hsuffix : d :: more <:+ t := ht ▸ List.dropWhile_suffix _
      obtain ⟨front, rfl⟩ := hsuffix
      rw [List.getLast?_append, he]
      rfl
    rw [if_neg (by simp), trimEnd_append_cons hc, hend]

theorem trim_infix (t : Text) : trim t <:+: t :=
  (List.rdropWhile_prefix _ _).isInfix.trans (List.dropWhile_suffix _).isInfix

end Text

namespace CodePoint

/-! ## Small letters -/

/-- Does the character belong to ASCII? -/
def IsAscii (c : CodePoint) : Prop := c.val < 0x80

/-- The small letter of an ASCII capital letter; every other character stays as it is. -/
def asciiSmall (c : CodePoint) : CodePoint :=
  if c.isBetween 65 90 then ofNat (c.val + 32) else c

/-- A number beyond ASCII gives no character of it, not even if it is no code point. -/
theorem not_isAscii_ofNat {n : Nat} (h : 0x80 ≤ n) : ¬ (ofNat n).IsAscii := by
  intro ha
  have ha : (ofNat n).val < 0x80 := ha
  rw [ofNat] at ha
  split at ha
  · have hn : n < 0x80 := ha
    omega
  · exact absurd ha (by decide)

theorem small_of_isAscii {c : CodePoint} (h : c.IsAscii) : c.small = c.asciiSmall := by
  have hval : c.val < 0x80 := h
  rw [small, if_pos hval, asciiSmall]

theorem isAscii_of_asciiSmall {c : CodePoint} (h : c.asciiSmall.IsAscii) : c.IsAscii := by
  rw [asciiSmall] at h
  split at h
  · rename_i hc
    simp only [isBetween, Bool.and_eq_true, decide_eq_true_eq] at hc
    show c.val < 0x80
    omega
  · exact h

/-- Of the capital letters beyond ASCII, one has an ASCII letter for its small letter. -/
theorem target_of_mem_smallLetterRuns : ∀ run ∈ CaseTable.smallLetterRuns,
    0x80 ≤ run.2.2.2 ∨ run = (0x212A, 0x212A, 1, 0x6B) := by
  decide +kernel

/-- A character whose small letter is an ASCII character is one itself, unless it is the
sign for kelvin. -/
theorem isAscii_of_small {c : CodePoint} (h : c.small.IsAscii)
    (hk : c.small ≠ 'k') : c.IsAscii := by
  by_contra hc
  have hval : ¬ c.val < 0x80 := hc
  rw [small, if_neg hval] at h hk
  cases hrun : CaseTable.smallLetterRuns.find? fun run =>
      c.isBetween run.1 run.2.1 && (c.val - run.1) % run.2.2.1 == 0 with
  | none =>
    rw [hrun] at h
    exact hc h
  | some run =>
    obtain ⟨first, last, step, target⟩ := run
    rw [hrun] at h hk
    have hfound := List.find?_some hrun
    simp only [isBetween, Bool.and_eq_true, decide_eq_true_eq] at hfound
    rcases target_of_mem_smallLetterRuns _ (List.mem_of_find?_eq_some hrun) with ht | ht
    · have ht : 0x80 ≤ target := ht
      exact not_isAscii_ofNat (by omega) h
    · cases ht
      have hk : ofNat (0x6B + (c.val - 0x212A)) ≠ 'k' := hk
      have hzero : c.val - 0x212A = 0 := by omega
      rw [hzero] at hk
      exact hk rfl

end CodePoint

namespace Text

theorem lowerAfter_of_isAscii {t : Text} (h : ∀ c ∈ t, c.IsAscii) (before : Text) :
    lowerAfter before t = t.map CodePoint.asciiSmall := by
  induction t generalizing before with
  | nil => rfl
  | cons c rest ih =>
    rw [List.forall_mem_cons] at h
    have hc : c.val < 0x80 := h.1
    have hdotted : (c.val == 0x130) = false := by simp; omega
    have hsigma : (c.val == 0x3A3) = false := by simp; omega
    rw [lowerAfter, hdotted, hsigma, if_neg Bool.false_ne_true,
      if_neg Bool.false_ne_true, ih h.2, CodePoint.small_of_isAscii h.1]
    rfl

theorem lower_of_isAscii {t : Text} (h : ∀ c ∈ t, c.IsAscii) :
    lower t = t.map CodePoint.asciiSmall :=
  lowerAfter_of_isAscii h []

/-- A text whose small letters are ASCII characters other than `k` is an ASCII text. -/
theorem isAscii_of_lowerAfter {t before : Text}
    (h : ∀ c ∈ lowerAfter before t, c.IsAscii ∧ c ≠ 'k') : ∀ c ∈ t, c.IsAscii := by
  induction t generalizing before with
  | nil => simp
  | cons c rest ih =>
    rw [lowerAfter] at h
    simp only [List.forall_mem_append] at h
    refine List.forall_mem_cons.mpr ⟨?_, ih h.2⟩
    -- The two letters with rules of their own have small letters beyond ASCII.
    by_cases hdotted : c.val = 0x130
    · have hmark := h.1 (CodePoint.ofNat 0x307) (by simp [hdotted])
      exact absurd hmark.1 (CodePoint.not_isAscii_ofNat (by decide))
    · by_cases hsigma : c.val = 0x3A3
      · simp only [hsigma] at h
        by_cases hfinal : (meetsCased before && !meetsCased rest) = true
        · have hlast := h.1 (CodePoint.ofNat 0x3C2) (by simp [hfinal])
          exact absurd hlast.1 (CodePoint.not_isAscii_ofNat (by decide))
        · have hinner := h.1 (CodePoint.ofNat 0x3C3) (by simp [hfinal])
          exact absurd hinner.1 (CodePoint.not_isAscii_ofNat (by decide))
      · have hsmall := h.1 c.small (by simp [hdotted, hsigma])
        exact CodePoint.isAscii_of_small hsmall.1 hsmall.2

/-- Small letters that are ASCII characters other than `k` are those of ASCII. -/
theorem lower_eq_iff {t s : Text} (hs : ∀ c ∈ s, c.IsAscii ∧ c ≠ 'k') :
    lower t = s ↔ t.map CodePoint.asciiSmall = s := by
  constructor
  · intro h
    subst h
    exact (lower_of_isAscii (isAscii_of_lowerAfter hs)).symm
  · intro h
    rw [lower_of_isAscii, h]
    intro c hc
    refine CodePoint.isAscii_of_asciiSmall (hs _ ?_).1
    rw [← h]
    exact List.mem_map_of_mem hc

end Text

end ExtensionAudit
