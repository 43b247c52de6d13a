import ExtensionAudit.Proofs.Number.Rounding
import ExtensionAudit.Proofs.Text
import Mathlib

/-!
# Size — what a shown size says

A number of bytes is shown as a number of hundredths of a unit (`Size.Shown`), and the
text says which. Which unit it is goes by the number of bytes itself, while what is
printed is rounded. So the printed quantity is off by half a hundredth at most and keeps
the order, but a number that is less than half a hundredth below the next unit is
printed as 1024 of its own.
-/

namespace ExtensionAudit

/-! ## Hundredths -/

namespace Binary64

/-- At least two digits. -/
def twoDigits (n : Nat) : List Char :=
  if (Nat.toDigits 10 n).length < 2 then '0' :: Nat.toDigits 10 n else Nat.toDigits 10 n

theorem ofDigitChars_twoDigits (n : Nat) : Nat.ofDigitChars 10 (twoDigits n) 0 = n := by
  rw [twoDigits]
  split
  · rw [Nat.ofDigitChars_cons]
    exact Nat.ofDigitChars_ten_toDigits
  · exact Nat.ofDigitChars_ten_toDigits

theorem hundredthsText_eq (n : Nat) :
    hundredthsText n = Text.ofNat (n / 100) ++
    ('.' : CodePoint) :: (twoDigits (n % 100)).map CodePoint.ofChar := by
  have hlength : (Text.ofNat (n % 100)).length = (Nat.toDigits 10 (n % 100)).length :=
    List.length_map _
  rw [hundredthsText, twoDigits, List.append_assoc]
  simp only [hlength]
  split <;> rfl

theorem hundredthsText_injective : Function.Injective hundredthsText := by
  intro m n h
  have hpoint (n : Nat) : ('.' : CodePoint) ∉ Text.ofNat n :=
    Text.not_mem_ofNat (by decide) n
  rw [hundredthsText_eq, hundredthsText_eq] at h
  obtain ⟨hwhole, hdigits⟩ := Text.eq_of_append_cons (hpoint _) (hpoint _) h
  have hquotient := Text.ofNat_injective hwhole
  have htwo := List.map_injective_iff.mpr Text.ofChar_injective hdigits
  have hrest : m % 100 = n % 100 := by
    rw [← ofDigitChars_twoDigits (m % 100), htwo, ofDigitChars_twoDigits]
  omega

theorem not_mem_hundredthsText (n : Nat) : (' ' : CodePoint) ∉ hundredthsText n := by
  have hblank (n : Nat) : (' ' : CodePoint) ∉ Text.ofNat n :=
    Text.not_mem_ofNat (by decide) n
  have hzero : (' ' : CodePoint) ∉ Text.ofString "0" := by decide
  have hpoint : (' ' : CodePoint) ∉ Text.ofString "." := by decide
  rw [hundredthsText]
  simp only [List.mem_append, hblank, hpoint, or_false, false_or]
  split
  · simp only [List.mem_append, hblank, hzero, or_false, not_false_eq_true]
  · exact hblank _

end Binary64

namespace Size

/-! ## Shown sizes -/

/-- The names of the units. -/
def names : List Text := units ++ [lastUnit]

/-- A size as it is shown: a number of hundredths of a unit, which is a power of 1024. -/
structure Shown where
  hundredths : Nat
  power : Fin 5
deriving DecidableEq

namespace Shown

/-- The name of the unit. -/
def unit (s : Shown) : Text := names.getD s.power []

/-- What is printed. -/
def text (s : Shown) : Text := Binary64.hundredthsText s.hundredths ++ " " ++ s.unit

/-- The number in front of the unit. -/
def number (s : Shown) : ℚ := s.hundredths / 100

/-- The quantity. -/
def bytes (s : Shown) : ℚ := s.number * 1024 ^ s.power.val

/-- A shown size can be read in one way. -/
theorem text_injective : Function.Injective text := by
  intro s s' h
  obtain ⟨hundredths, power⟩ := s
  obtain ⟨hundredths', power'⟩ := s'
  have hunits : ∀ i j : Fin 5, names.getD i [] = names.getD j [] → i = j := by decide
  simp only [text, unit, List.append_assoc] at h
  obtain ⟨hnumber, hunit⟩ :=
    Text.eq_of_append_cons (Binary64.not_mem_hundredthsText hundredths)
    (Binary64.not_mem_hundredthsText hundredths') h
  rw [Binary64.hundredthsText_injective hnumber, hunits power power' hunit]

end Shown

/-! ## The loop over the units -/

/-- The unit in which a number of bytes is shown: the greatest that does not exceed it,
and bytes if none does. -/
def power (n : Nat) : Nat := min (Nat.log 1024 n) 4

/-- A number of bytes in its unit, rounded to hundredths. -/
def shown (n : Nat) : Shown :=
  ⟨roundHalfEven (100 * n) (1024 ^ power n),
    ⟨power n, Nat.lt_succ_of_le (Nat.min_le_right _ _)⟩⟩

theorem power_eq {n k : Nat} (hk : k < 4) (hlow : 1024 ^ k ≤ n)
    (hhigh : n < 1024 ^ (k + 1)) : power n = k := by
  rw [power, Nat.log_eq_of_pow_le_of_lt_pow hlow hhigh]
  exact Nat.min_eq_left (Nat.le_of_lt hk)

theorem power_eq_four {n : Nat} (h : 1024 ^ 4 ≤ n) : power n = 4 := by
  have hlog : 4 ≤ Nat.log 1024 n := Nat.le_log_of_pow_le (by decide) h
  exact Nat.min_eq_right hlog

theorem text_shown {n k : Nat} (h : power n = k) :
    (shown n).text = Binary64.hundredthsText (roundHalfEven (100 * n) (1024 ^ k)) ++
      " " ++ names.getD k [] := by
  subst h
  rfl

theorem pow_eq (k : Nat) : 1024 ^ k = 2 ^ (10 * k) := by
  rw [Nat.pow_mul]

/-- From a unit on that does not exceed the number of bytes, the loop comes to the one
in which it is shown. -/
theorem inUnits_drop {x : Binary64} {n k : Nat}
    (hx : x.IsQuotient n (1024 ^ k)) (hk : k ≤ 4) (hle : 1024 ^ k ≤ n)
    (hn : n < 2 ^ 53) : inUnits (.rounded x) (units.drop k) = .ok (shown n).text := by
  have hpos : 0 < 1024 ^ k := Nat.pow_pos (by decide)
  have hprinted := hx.fixedText hpos
  induction hd : 4 - k generalizing x k with
  | zero =>
    obtain rfl : k = 4 := by omega
    rw [text_shown (power_eq_four hle), ← hprinted]
    rfl
  | succ d ih =>
    have hlt : k < 4 := by omega
    have hunits : units.drop k = names.getD k [] :: units.drop (k + 1) := by
      have hall : ∀ i : Fin 4, units.drop i =
          names.getD i [] :: units.drop (i + 1) := by decide
      exact hall ⟨k, hlt⟩
    rw [hunits, inUnits]
    by_cases hfits : x.ltInt 1024 = true
    · have hsmall : n < 1024 ^ (k + 1) := by
        rw [Nat.pow_succ, Nat.mul_comm]
        exact (hx.ltInt_iff hpos 1024).mp hfits
      rw [text_shown (power_eq hlt hle hsmall), ← hprinted]
      exact if_pos hfits
    · have hlarge : 1024 ^ (k + 1) ≤ n := by
        rw [Nat.pow_succ, Nat.mul_comm]
        exact Nat.not_lt.mp (fun h => hfits ((hx.ltInt_iff hpos 1024).mpr h))
      have hnext : (x.divNat (2 ^ 10)).IsQuotient n (1024 ^ (k + 1)) := by
        rw [pow_eq] at hx hlarge ⊢
        exact hx.divNat hn hlarge
      have hpos' : 0 < 1024 ^ (k + 1) := Nat.pow_pos (by decide)
      have hrest := ih hnext (by omega) hlarge hpos' (hnext.fixedText hpos') (by omega)
      rw [← hrest]
      exact if_neg hfits

theorem power_eq_zero {n : Nat} (h : n < 1024) : power n = 0 := by
  rw [power, Nat.log_of_lt h]
  rfl

theorem ofQuotient_natCast (n den : Nat) :
    Binary64.ofQuotient ((n : Int) < 0)
    (n : Int).natAbs den = Binary64.ofQuotient false n den := by
  have hnegative : decide ((n : Int) < 0) = false := decide_eq_false (by omega)
  rw [hnegative, Int.natAbs_natCast]

/-- An integer below 2^53 is a double. -/
theorem exists_ofInt? {n : Nat} (hn : n < 2 ^ 53) : ∃ x, Binary64.ofInt? n = some x ∧
    x.IsQuotient n 1 := by
  rcases Nat.eq_zero_or_pos n with rfl | hpos
  · refine ⟨Binary64.zero false, rfl, 0, -1074, rfl, ?_⟩
    rw [Nat.zero_mul]
    rfl
  · have hle : 2 ^ 0 ≤ n := hpos
    have hquotient : (Binary64.ofQuotient false n 1).IsQuotient n 1 :=
      Binary64.isQuotient_ofQuotient Nat.one_pos hn hle rfl
    refine ⟨_, ?_, hquotient⟩
    obtain ⟨mantissa, exponent, hfinite, _⟩ := hquotient
    rw [Binary64.ofInt?, ofQuotient_natCast, hfinite]

/-- A number of bytes is shown in its unit, rounded to hundredths. -/
theorem ofInt_eq_ok {n : Nat} (hn : n < 2 ^ 53) : ofInt n = .ok (shown n).text := by
  rw [ofInt, units, inUnits]
  by_cases hsmall : n < 1024
  · obtain ⟨x, hx, hquotient⟩ := exists_ofInt? hn
    have hprinted := hquotient.fixedText Nat.one_pos
    rw [if_pos (by simpa [Amount.fits] using hsmall), Amount.text, hx,
      text_shown (power_eq_zero hsmall), Nat.pow_zero, ← hprinted]
    rfl
  · have hlarge : 1024 ^ 1 ≤ n := Nat.not_lt.mp hsmall
    have hle : 2 ^ 10 ≤ n := hlarge
    have hquotient : (Binary64.ofQuotient false n 1024).IsQuotient n (1024 ^ 1) :=
      Binary64.isQuotient_ofQuotient (by decide) hn hle rfl
    have hrest := inUnits_drop hquotient (by decide) hlarge hn
    obtain ⟨mantissa, exponent, hfinite, _⟩ := hquotient
    rw [if_neg (by simpa [Amount.fits] using hsmall), Amount.next, ofQuotient_natCast,
      hfinite, ← hrest, hfinite]
    rfl

/-! ## What is printed -/

variable {m n : Nat}

theorem pow_power_pos (n : Nat) : 0 < 1024 ^ power n := Nat.pow_pos (by decide)

theorem pow_power_le (h : n ≠ 0) : 1024 ^ power n ≤ n := by
  calc 1024 ^ power n
    _ ≤ 1024 ^ Nat.log 1024 n := Nat.pow_le_pow_right (by decide) (Nat.min_le_left _ _)
    _ ≤ n := Nat.pow_log_le_self 1024 h

theorem lt_pow_power (h : power n < 4) : n < 1024 ^ (power n + 1) := by
  have hpower : power n = Nat.log 1024 n := by
    rw [power] at h ⊢
    omega
  rw [hpower]
  exact Nat.lt_pow_succ_log_self (by decide) n

theorem power_mono (h : m ≤ n) : power m ≤ power n :=
  min_le_min_right 4 (Nat.log_mono_right h)

/-- In a unit above bytes at least one whole unit is printed. -/
theorem le_hundredths (h : 0 < power n) : 100 ≤ (shown n).hundredths := by
  have hne : n ≠ 0 := by
    intro hzero
    rw [hzero, power_eq_zero (by decide)] at h
    exact absurd h (by decide)
  exact le_roundHalfEven (pow_power_pos n) (Nat.mul_le_mul_left 100 (pow_power_le hne))

theorem hundredths_le (h : power n < 4) : (shown n).hundredths ≤ 102400 := by
  apply roundHalfEven_le (pow_power_pos n)
  have hlt := lt_pow_power h
  rw [Nat.pow_succ] at hlt
  generalize 1024 ^ power n = unit at *
  omega

/-- What is within half a hundredth of the next unit is printed as 1024. -/
theorem hundredths_eq_iff (h : power n < 4) :
    (shown n).hundredths = 102400 ↔ 204799 * 1024 ^ power n ≤ 200 * n := by
  have hlt := lt_pow_power h
  rw [Nat.pow_succ] at hlt
  have hunit : 100 * n < (102399 + 1) * 1024 ^ power n := by
    generalize 1024 ^ power n = unit at *
    omega
  have hround := Binary64.roundHalfEven_eq_succ_iff (pow_power_pos n)
    (by decide : 102399 % 2 = 1) hunit
  have htwice : 2 * (100 * n) = 200 * n := by omega
  rwa [htwice] at hround

theorem bytes_shown (n : Nat) : (shown n).bytes =
    (shown n).hundredths * (1024 ^ power n : Nat) / 100 := by
  show ((shown n).hundredths / 100 : ℚ) * 1024 ^ power n = _
  push_cast
  ring

/-- What is printed is off by half a hundredth of the unit at most. -/
theorem abs_bytes_sub_le (n : Nat) : |(shown n).bytes - n| ≤ 1024 ^ power n / 200 := by
  have hbounds : 2 * (100 * n) ≤ (2 * (shown n).hundredths + 1) * 1024 ^ power n ∧
      2 * (shown n).hundredths * 1024 ^ power n ≤ 2 * (100 * n) + 1024 ^ power n :=
    roundHalfEven_bounds (pow_power_pos n)
  have hlow : (2 * (100 * n) : ℚ) ≤
      (2 * (shown n).hundredths + 1) * 1024 ^ power n := by exact_mod_cast hbounds.1
  have hhigh : (2 * (shown n).hundredths * 1024 ^ power n : ℚ) ≤
      2 * (100 * n) + 1024 ^ power n := by
    exact_mod_cast hbounds.2
  rw [bytes_shown, abs_le]
  push_cast
  constructor
  · linarith
  · linarith

/-- A greater number of bytes is not printed as less. -/
theorem bytes_mono (h : m ≤ n) : (shown m).bytes ≤ (shown n).bytes := by
  rw [bytes_shown, bytes_shown]
  have hnat : (shown m).hundredths * 1024 ^ power m ≤
      (shown n).hundredths * 1024 ^ power n := by
    rcases Nat.lt_or_eq_of_le (power_mono h) with hlt | heq
    · -- the printed number of the smaller unit goes up to the next unit at most
      have hmore : power m < 4 := Nat.lt_of_lt_of_le hlt (Nat.min_le_right _ _)
      calc (shown m).hundredths * 1024 ^ power m
        _ ≤ 102400 * 1024 ^ power m := Nat.mul_le_mul_right _ (hundredths_le hmore)
        _ = 100 * 1024 ^ (power m + 1) := by ring
        _ ≤ 100 * 1024 ^ power n :=
          Nat.mul_le_mul_left _ (Nat.pow_le_pow_right (by decide) hlt)
        _ ≤ (shown n).hundredths * 1024 ^ power n :=
          Nat.mul_le_mul_right _ (le_hundredths (by omega))
    · rw [heq]
      apply Nat.mul_le_mul_right
      show roundHalfEven (100 * m) (1024 ^ power m) ≤
          roundHalfEven (100 * n) (1024 ^ power n)
      rw [heq]
      exact roundHalfEven_mono (Nat.mul_le_mul_left 100 h)
  have hcast : ((shown m).hundredths : ℚ) * (1024 ^ power m : Nat) ≤
      (shown n).hundredths * (1024 ^ power n : Nat) := by
    exact_mod_cast hnat
  linarith

/-- Below 2^53 a number of bytes is shown in one way: in its unit, off by half a
hundredth at most, and in order. A unit above bytes has at least one whole unit. A unit
with a bound has at most 1024, and that just if the number of bytes is within half a
hundredth of the next unit. -/
theorem ofInt_shown {n : Nat} (hn : n < 2 ^ 53) :
    (∀ s : Shown, ofInt n = .ok s.text ↔ s = shown n) ∧
    |(shown n).bytes - n| ≤ 1024 ^ power n / 200 ∧
    (∀ m ≤ n, (shown m).bytes ≤ (shown n).bytes) ∧
    (0 < power n → 1 ≤ (shown n).number) ∧
    (power n < 4 → (shown n).number ≤ 1024 ∧
      ((shown n).number = 1024 ↔ 204799 * 1024 ^ power n ≤ 200 * n)) := by
  refine ⟨fun s => ?_, abs_bytes_sub_le n, fun m hm => bytes_mono hm, fun hpower => ?_,
    fun hpower => ⟨?_, ?_⟩⟩
  · rw [ofInt_eq_ok hn, Except.ok.injEq]
    constructor
    · intro h
      exact Shown.text_injective h.symm
    · intro h
      rw [h]
  · have hhundredths : (100 : ℚ) ≤ (shown n).hundredths := by
      exact_mod_cast le_hundredths hpower
    rw [Shown.number]
    linarith
  · have hhundredths : ((shown n).hundredths : ℚ) ≤ 102400 := by
      exact_mod_cast hundredths_le hpower
    rw [Shown.number]
    linarith
  · rw [← hundredths_eq_iff hpower, Shown.number]
    constructor
    · intro h
      have hhundredths : ((shown n).hundredths : ℚ) = (102400 : Nat) := by
        push_cast
        linarith
      exact_mod_cast hhundredths
    · intro h
      rw [h]
      norm_num

/-- Six bytes below a megabyte the printed number is still below 1024. -/
theorem ofInt_sixBelowMegabyte :
    ofInt 1048570 = .ok "1023.99 KB" ∧
      ∀ s : Shown, ofInt 1048570 = .ok s.text → 1 ≤ s.number ∧ s.number < 1024 := by
  have hshown : shown 1048570 = ⟨102399, 1⟩ := by decide +kernel
  have hpower : power 1048570 = 1 := by decide +kernel
  obtain ⟨htext, _, _, hleast, hbound⟩ := ofInt_shown (by decide : 1048570 < 2 ^ 53)
  rw [hpower] at hleast hbound
  obtain ⟨hle, hiff⟩ := hbound (by decide)
  refine ⟨(htext ⟨102399, 1⟩).mpr hshown.symm, fun s hs => ?_⟩
  rw [(htext s).mp hs]
  refine ⟨hleast (by decide), lt_of_le_of_ne hle fun heq => ?_⟩
  exact absurd (hiff.mp heq) (by decide)

/-- One byte below a megabyte is printed as 1024 kilobytes. -/
theorem ofInt_belowMegabyte :
    ofInt 1048575 = .ok "1024.00 KB" ∧
      ¬ ∀ s : Shown, ofInt 1048575 = .ok s.text → s.power.val < 4 → s.number < 1024 := by
  have hshown : shown 1048575 = ⟨102400, 1⟩ := by decide +kernel
  have htext : ofInt 1048575 = .ok (Shown.text ⟨102400, 1⟩) := by
    rw [← hshown]
    exact ofInt_eq_ok (by decide)
  refine ⟨htext, fun h => ?_⟩
  have hnumber := h ⟨102400, 1⟩ htext (by decide)
  rw [Shown.number] at hnumber
  norm_num at hnumber

end Size

end ExtensionAudit
