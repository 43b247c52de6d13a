import ExtensionAudit.Number.Numeral
import ExtensionAudit.Size
import Mathlib.Algebra.GroupWithZero.Nat
import Mathlib.Data.List.TakeWhile
import Mathlib.Order.Basic
import Mathlib.Tactic.Common

/-!
# Number — where numbers end

A quotient has no finite double just from halfway between the greatest double and the
power of two after it (`Binary64.ofQuotient_cases`). So the size of a number of bytes
can be told unless the number, or from 1024 on the number of kilobytes, is that large
(`Size.ofInt_cases`). Of the texts that consist of digits just those are integers whose
digits are all decimal and not too many (`Numeral.readInt_cases`).
-/

namespace ExtensionAudit

/-! ## Doubles -/

namespace Binary64

/-- Halfway between the greatest double, 2^1024 - 2^971, and 2^1024. -/
def overflow : Nat := (2 ^ 54 - 1) * 2 ^ 970

theorem lt_overflow : 1024 < overflow := by
  have hunit : 0 < 2 ^ 970 := Nat.two_pow_pos 970
  rw [overflow]
  generalize 2 ^ 970 = unit at *
  omega

theorem mul_two_pow_le {num den k : Nat} (hnum : 0 < num)
    (h : den.log2 + 1 + k ≤ num.log2) :
    den * 2 ^ k ≤ num := by
  calc den * 2 ^ k
    _ ≤ 2 ^ (den.log2 + 1) * 2 ^ k :=
      Nat.mul_le_mul_right _ (Nat.le_of_lt Nat.lt_log2_self)
    _ = 2 ^ (den.log2 + 1 + k) := (Nat.pow_add 2 (den.log2 + 1) k).symm
    _ ≤ 2 ^ num.log2 := Nat.pow_le_pow_right (by decide) h
    _ ≤ num := Nat.log2_self_le (Nat.ne_of_gt hnum)

theorem lt_mul_two_pow {num den k : Nat} (hden : 0 < den)
    (h : num.log2 + 1 ≤ den.log2 + k) :
    num < den * 2 ^ k := by
  calc num
    _ < 2 ^ (num.log2 + 1) := Nat.lt_log2_self
    _ ≤ 2 ^ (den.log2 + k) := Nat.pow_le_pow_right (by decide) h
    _ = 2 ^ den.log2 * 2 ^ k := Nat.pow_add 2 den.log2 k
    _ ≤ den * 2 ^ k := Nat.mul_le_mul_right _ (Nat.log2_self_le (Nat.ne_of_gt hden))

theorem le_floorLog2_iff {num den : Nat} (hnum : 0 < num) (hden : 0 < den) (k : Nat) :
    (k : Int) ≤ floorLog2 num den ↔ den * 2 ^ k ≤ num := by
  rw [floorLog2]
  cases hguess : (num.log2 : Int) - (den.log2 : Int) with
  | ofNat g =>
    rw [Int.ofNat_eq_natCast] at hguess ⊢
    show (k : Int) ≤ (if den * 2 ^ g ≤ num then (g : Int) else (g : Int) - 1) ↔ _
    -- The guess is off by at most one, so only its own power of two has to be compared.
    rcases Nat.lt_trichotomy k g with hlt | rfl | hgt
    · have hle := mul_two_pow_le hnum (by omega : den.log2 + 1 + k ≤ num.log2)
      split_ifs <;> omega
    · split_ifs <;> omega
    · have hlt := lt_mul_two_pow hden (by omega : num.log2 + 1 ≤ den.log2 + k)
      split_ifs <;> omega
  | negSucc g =>
    have hlt := lt_mul_two_pow hden (by omega : num.log2 + 1 ≤ den.log2 + k)
    show (k : Int) ≤
        (if den ≤ num * 2 ^ (g + 1) then Int.negSucc g else Int.negSucc g - 1) ↔ _
    split_ifs <;> omega

/-- A quotient below an even number is rounded up to it just if it is at most a half
below. -/
theorem roundHalfEven_eq_succ_iff {m num den : Nat} (hden : 0 < den) (hodd : m % 2 = 1)
    (hlt : num < (m + 1) * den) :
    roundHalfEven num den = m + 1 ↔ (2 * m + 1) * den ≤ 2 * num := by
  have hdiv := Nat.div_add_mod num den
  have hmod := Nat.mod_lt num hden
  have hq : num / den < m + 1 := (Nat.div_lt_iff_lt_mul hden).mpr hlt
  rw [roundHalfEven]
  generalize num / den = q at *
  generalize num % den = r at *
  have hhalf : (2 * m + 1) * den = 2 * (den * m) + den := by
    rw [Nat.add_mul, Nat.one_mul, Nat.mul_assoc, Nat.mul_comm m]
  by_cases hlast : q = m
  · subst hlast
    simp only [hodd, beq_self_eq_true, Bool.and_true, Bool.or_eq_true,
      decide_eq_true_eq, beq_iff_eq]
    split_ifs <;> omega
  · have hle : den * (q + 1) ≤ den * m := Nat.mul_le_mul_left den (by omega)
    rw [Nat.mul_succ] at hle
    split_ifs <;> omega

/-- A quotient below 2^53 is rounded up to it just if it is at most a half below. -/
theorem roundHalfEven_eq_iff {num den : Nat} (hden : 0 < den) (hlt : num < 2 ^ 53 * den) :
    roundHalfEven num den = 2 ^ 53 ↔ (2 ^ 54 - 1) * den ≤ 2 * num :=
  roundHalfEven_eq_succ_iff hden (by decide : (2 ^ 53 - 1) % 2 = 1) hlt

/-- The exponent of the double nearest to a quotient, unless the mantissa is rounded up
to 2^53. -/
def leadExponent (num den : Nat) : Int := max (floorLog2 num den - 52) (-1074)

/-- The mantissa that belongs to that exponent. -/
def rounded (num den : Nat) : Nat :=
  let (n, d) := scaled num den (leadExponent num den)
  roundHalfEven n d

theorem ofQuotient_of_pos (negative : Bool) {num : Nat} (hnum : 0 < num) (den : Nat) :
    ofQuotient negative num den =
      if rounded num den = 2 ^ 53 then
        if 970 < leadExponent num den then .infinite negative
        else .finite negative (2 ^ 52) (leadExponent num den + 1)
      else if 971 < leadExponent num den then .infinite negative
      else .finite negative (rounded num den) (leadExponent num den) := by
  have hne : (num == 0) = false := beq_false_of_ne (Nat.ne_of_gt hnum)
  rw [ofQuotient, hne, if_neg Bool.false_ne_true]
  show (let lead : Nat × Int := if rounded num den ==
      Nat.pow 2 53 then (Nat.pow 2 52, leadExponent num den + 1)
      else (rounded num den, leadExponent num den)
    if 971 < lead.2 then Binary64.infinite negative
    else .finite negative lead.1 lead.2) = _
  dsimp only
  by_cases hup : rounded num den = 2 ^ 53
  · have hcarry : (rounded num den == Nat.pow 2 53) = true := beq_iff_eq.mpr hup
    rw [hcarry, if_pos rfl, if_pos hup]
    by_cases hbeyond : 970 < leadExponent num den
    · exact (if_pos (by omega)).trans (if_pos hbeyond).symm
    · exact (if_neg (by omega)).trans (if_neg hbeyond).symm
  · have hplain : (rounded num den == Nat.pow 2 53) = false := beq_false_of_ne hup
    rw [hplain, if_neg Bool.false_ne_true, if_neg hup]

theorem rounded_of_lead {num den k : Nat} (h : leadExponent num den = k) :
    rounded num den = roundHalfEven num (den * 2 ^ k) := by
  rw [rounded, h]
  rfl

theorem mul_two_pow_add (den j k : Nat) : den * 2 ^ (j + k) = 2 ^ j * (2 ^ k * den) := by
  rw [Nat.pow_add, Nat.mul_comm den, Nat.mul_assoc]

theorem two_pow_mul_pos (k : Nat) {den : Nat} (hden : 0 < den) : 0 < 2 ^ k * den :=
  Nat.mul_pos (Nat.two_pow_pos k) hden

/-- The double nearest to a quotient is infinite just from halfway on, and finite
below. -/
theorem ofQuotient_cases (negative : Bool) (num : Nat) {den : Nat} (hden : 0 < den) :
    (overflow * den ≤ num ∧ ofQuotient negative num den = .infinite negative) ∨
      num < overflow * den ∧ ∃ mantissa exponent,
        ofQuotient negative num den = .finite negative mantissa exponent := by
  simp only [overflow, Nat.mul_assoc]
  have hunit := two_pow_mul_pos 970 hden
  rcases Nat.eq_zero_or_pos num with rfl | hnum
  · generalize 2 ^ 970 * den = unit at *
    exact .inr ⟨Nat.mul_pos (by decide) hunit, 0, -1074, rfl⟩
  have h1023 := le_floorLog2_iff hnum hden (53 + 970)
  have h1024 := le_floorLog2_iff hnum hden (54 + 970)
  rw [mul_two_pow_add den 53 970] at h1023
  rw [mul_two_pow_add den 54 970] at h1024
  rw [ofQuotient_of_pos negative hnum]
  rcases Int.lt_trichotomy (floorLog2 num den) 1023 with hlt | hmid | hgt
  · -- The exponent is below the greatest, and so is one more, for a mantissa that is
    -- rounded up to 2^53.
    have hexponent : leadExponent num den ≤ 970 := by rw [leadExponent]; omega
    generalize 2 ^ 970 * den = unit at *
    refine .inr ⟨by omega, ?_⟩
    split_ifs
    · omega
    · exact ⟨_, _, rfl⟩
    · omega
    · exact ⟨_, _, rfl⟩
  · -- At the greatest exponent the double is infinite just if the mantissa is rounded
    -- up to 2^53.
    have hexponent : leadExponent num den = (1 + 970 : Nat) := by rw [leadExponent]; omega
    have hunits := mul_two_pow_add den 1 970
    have hup : rounded num den = 2 ^ 53 ↔
        (2 ^ 54 - 1) * (den * 2 ^ (1 + 970)) ≤ 2 * num := by
      rw [rounded_of_lead hexponent]
      exact roundHalfEven_eq_iff (by rw [hunits]; omega) (by rw [hunits]; omega)
    rw [hunits] at hup
    rw [hexponent]
    generalize 2 ^ 970 * den = unit at *
    by_cases hover : rounded num den = 2 ^ 53
    · refine .inl ⟨by omega, ?_⟩
      rw [if_pos hover]
      rfl
    · refine .inr ⟨by omega, ?_⟩
      rw [if_neg hover]
      exact ⟨_, _, rfl⟩
  · have hexponent : 972 ≤ leadExponent num den := by rw [leadExponent]; omega
    generalize 2 ^ 970 * den = unit at *
    refine .inl ⟨by omega, ?_⟩
    split_ifs
    · rfl
    · omega
    · rfl
    · omega

theorem ofInt?_eq_none_iff (n : Int) : ofInt? n = none ↔ overflow ≤ n.natAbs := by
  rw [ofInt?]
  rcases ofQuotient_cases (n < 0) n.natAbs Nat.one_pos with ⟨hle, h⟩ |
    ⟨hlt, mantissa, exponent, h⟩
  · rw [Nat.mul_one] at hle
    simp [h, hle]
  · rw [Nat.mul_one] at hlt
    simp [h, hlt]

end Binary64

/-! ## Sizes -/

namespace Size

theorem inUnits_rounded (x : Binary64) (units : List Text) :
    ∃ t, inUnits (.rounded x) units = .ok t := by
  induction units generalizing x with
  | nil => exact ⟨_, rfl⟩
  | cons unit more ih =>
    rw [inUnits]
    by_cases hfits : (Amount.rounded x).fits = true
    · rw [if_pos hfits]
      exact ⟨_, rfl⟩
    · rw [if_neg hfits]
      exact ih (x.divNat 1024)

/-- A size is told unless it is too large: a number below 1024 for a double, any other
one for a double that is 1024 times less. -/
theorem ofInt_cases (n : Int) :
    (n ≤ -Binary64.overflow ∧ ofInt n = .error .integerTooLarge) ∨
    (1024 * Binary64.overflow ≤ n ∧ ofInt n = .error .quotientTooLarge) ∨
    ((-Binary64.overflow < n ∧ n < 1024 * Binary64.overflow) ∧ ∃ t, ofInt n = .ok t) := by
  have hlarge : 1024 < Binary64.overflow := Binary64.lt_overflow
  generalize hoverflow : Binary64.overflow = overflow at *
  rw [ofInt, units, inUnits, Amount.fits]
  by_cases hfits : n < 1024
  · rw [if_pos (decide_eq_true hfits), Amount.text]
    cases hdouble : Binary64.ofInt? n with
    | none =>
      rw [Binary64.ofInt?_eq_none_iff, hoverflow] at hdouble
      exact .inl ⟨by omega, rfl⟩
    | some x =>
      have hsmall : ¬ overflow ≤ n.natAbs := by
        rw [← hoverflow, ← Binary64.ofInt?_eq_none_iff, hdouble]
        exact Option.some_ne_none x
      exact .inr (.inr ⟨by omega, _, rfl⟩)
  · rw [if_neg (by simpa using hfits), Amount.next]
    have hquotient := Binary64.ofQuotient_cases (n < 0) n.natAbs (by decide : 0 < 1024)
    rw [hoverflow] at hquotient
    rcases hquotient with ⟨hle, h⟩ | ⟨hlt, mantissa, exponent, h⟩
    · rw [h]
      exact .inr (.inl ⟨by omega, rfl⟩)
    · rw [h]
      exact .inr (.inr ⟨by omega, inUnits_rounded _ _⟩)

end Size

/-! ## Integers of digits -/

namespace Numeral

/-- The value of a decimal digit, and nothing for every other character. -/
def digitValue (c : CodePoint) : Nat := c.decimalValue?.getD 0

/-- Is the character a decimal digit? -/
def isDecimal (c : CodePoint) : Bool := c.decimalValue?.isSome

/-- The ranges of the digits of every kind. -/
def digitRanges : List (Nat × Nat) :=
  CodePoint.zeros.map (fun start => (start, start + 9)) ++ CodePoint.otherDigitRanges

/-- The ranges of the blanks. -/
def blankRanges : List (Nat × Nat) :=
  [(0x09, 0x0D), (0x1C, 0x20), (0x85, 0x85), (0xA0, 0xA0), (0x1680, 0x1680),
    (0x2000, 0x200A),
    (0x2028, 0x2029), (0x202F, 0x202F), (0x205F, 0x205F), (0x3000, 0x3000)]

variable {c : CodePoint} {t : Text}

theorem exists_digitRange (h : c.isDigit = true) :
    ∃ range ∈ digitRanges, range.1 ≤ c.val ∧ c.val ≤ range.2 := by
  simp only [CodePoint.isDigit, CodePoint.decimalValue?, Option.isSome_map,
    List.find?_isSome, Bool.or_eq_true, List.any_eq_true, CodePoint.isBetween,
    Bool.and_eq_true, decide_eq_true_eq] at h
  rcases h with ⟨start, hmem, hrange⟩ | ⟨range, hmem, hrange⟩
  · exact ⟨(start, start + 9), List.mem_append_left _ (List.mem_map_of_mem hmem), hrange⟩
  · exact ⟨range, List.mem_append_right _ hmem, hrange⟩

theorem exists_blankRange (h : c.isBlank = true) :
    ∃ range ∈ blankRanges, range.1 ≤ c.val ∧ c.val ≤ range.2 := by
  simp [CodePoint.isBlank, CodePoint.isBetween] at h
  simp [blankRanges]
  omega

theorem isBlank_of_isDigit (h : c.isDigit = true) : c.isBlank = false := by
  by_contra hblank
  rw [Bool.not_eq_false] at hblank
  obtain ⟨digits, hdigits, hc⟩ := exists_digitRange h
  obtain ⟨blanks, hblanks, hc'⟩ := exists_blankRange hblank
  have hapart : ∀ digits ∈ digitRanges, ∀ blanks ∈ blankRanges,
      digits.2 < blanks.1 ∨ blanks.2 < digits.1 := by decide
  have := hapart digits hdigits blanks hblanks
  omega

theorem ne_of_isDigit {sign : CodePoint} (hsign : sign.isDigit = false)
    (h : c.isDigit = true) :
    (c == sign) = false := by
  rw [beq_eq_false_iff_ne]
  rintro rfl
  exact Bool.false_ne_true (hsign.symm.trans h)

theorem dropWhile_isMargin (h : ∀ c ∈ t, c.isDigit = true) :
    t.dropWhile isMargin = t := by
  cases t with
  | nil => rfl
  | cons c rest => simp [isMargin, isBlank_of_isDigit (h c (by simp))]

theorem withoutMargins_eq_self (h : ∀ c ∈ t, c.isDigit = true) :
    withoutMargins t = t := by
  have hreverse : ∀ c ∈ t.reverse, c.isDigit = true := by simpa using h
  rw [withoutMargins, dropWhile_isMargin h, dropWhile_isMargin hreverse,
    List.reverse_reverse]

theorem takeSign_eq (h : ∀ c ∈ t, c.isDigit = true) : takeSign t = (false, t) := by
  cases t with
  | nil => rfl
  | cons c rest =>
    have hc : c.isDigit = true := h c (by simp)
    have hminus : (c == '-') = false := ne_of_isDigit (by decide) hc
    have hplus : (c == '+') = false := ne_of_isDigit (by decide) hc
    simp [takeSign, hminus, hplus]

/-- After a digit, digits are taken as long as they are decimal. -/
theorem takeDigits_eq (h : ∀ c ∈ t, c.isDigit = true) :
    takeDigits true t =
      some ((t.takeWhile isDecimal).map digitValue, t.dropWhile isDecimal) := by
  induction t with
  | nil => rfl
  | cons c rest ih =>
    rw [List.forall_mem_cons] at h
    have hline : (c == '_') = false := ne_of_isDigit (by decide) h.1
    rw [takeDigits]
    cases hvalue : c.decimalValue? with
    | none => simp [hline, isDecimal, hvalue]
    | some d => simp [ih h.2, isDecimal, digitValue, hvalue]

theorem takeDigits_false (hne : t ≠ []) (h : ∀ c ∈ t, isDecimal c = true) :
    takeDigits false t = takeDigits true t := by
  cases t with
  | nil => exact absurd rfl hne
  | cons c rest =>
    obtain ⟨d, hd⟩ := Option.isSome_iff_exists.mp (h c (by simp))
    simp [takeDigits, hd]

/-- Digits of which not all are decimal are not taken to their end. -/
theorem takeDigits_false_ne (h : ∀ c ∈ t, c.isDigit = true)
    (hother : ∃ c ∈ t, isDecimal c = false)
    (digits : List Nat) : takeDigits false t ≠ some (digits, []) := by
  cases t with
  | nil => simp at hother
  | cons c rest =>
    have hline : (c == '_') = false := ne_of_isDigit (by decide) (h c (by simp))
    rw [takeDigits]
    cases hvalue : c.decimalValue? with
    | none => simp [hline]
    | some d =>
      have hc : isDecimal c = true := by rw [isDecimal, hvalue]; rfl
      rw [List.forall_mem_cons] at h
      simp only [List.mem_cons, exists_eq_or_imp, hc, Bool.true_eq_false,
        false_or] at hother
      simp [takeDigits_eq h.2, hother]

/-- A text of digits is an integer just if all of them are decimal and there are not too
many. -/
theorem readInt_cases (hne : t ≠ []) (h : ∀ c ∈ t, c.isDigit = true) :
    (((∀ c ∈ t, isDecimal c = true) ∧ t.length ≤ digitLimit) ∧
      readInt t = .ok (ofDigits (t.map digitValue))) ∨
    (((∃ c ∈ t, isDecimal c = false) ∨ digitLimit < t.length) ∧
      ∃ fault, readInt t = .error fault) := by
  rw [readInt, withoutMargins_eq_self h, takeSign_eq h]
  by_cases hdecimal : ∀ c ∈ t, isDecimal c = true
  · have htaken : t.takeWhile isDecimal = t := List.takeWhile_eq_self_iff.mpr hdecimal
    have hdropped : t.dropWhile isDecimal = [] := List.dropWhile_eq_nil_iff.mpr hdecimal
    simp only [takeDigits_false hne hdecimal, takeDigits_eq h, htaken, hdropped,
      List.length_map]
    by_cases hmany : digitLimit < t.length
    · exact .inr ⟨.inr hmany, _, if_pos hmany⟩
    · refine .inl ⟨⟨hdecimal, Nat.le_of_not_lt hmany⟩, ?_⟩
      rw [if_neg hmany]
      rfl
  · have hother : ∃ c ∈ t, isDecimal c = false := by simpa using hdecimal
    refine .inr ⟨.inl hother, ?_⟩
    rcases htaken : takeDigits false t with _ | ⟨digits, rest⟩
    · simp only [htaken]
      exact ⟨_, rfl⟩
    · have hrest : rest ≠ [] := by
        rintro rfl
        exact takeDigits_false_ne h hother digits htaken
      simp only [htaken]
      by_cases hmany : digitLimit < digits.length
      · exact ⟨_, if_pos hmany⟩
      · simp [hmany, hrest]

end Numeral

end ExtensionAudit
