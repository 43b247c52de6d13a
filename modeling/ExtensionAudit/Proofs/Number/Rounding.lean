import ExtensionAudit.Proofs.Number
import ExtensionAudit.Number.Decimal
import Mathlib.Algebra.GroupWithZero.Nat
import Mathlib.Tactic.Ring

/-!
# Number — rounding, and what need not be rounded

Rounding to the nearest goes by the quotient alone, keeps order and integers, and is off
by half a unit at most. An integer below 2^53 and its quotients by powers of two, as far
as they are at least one, are doubles, so division by such a power gives the exact
quotient (`Binary64.IsQuotient.divNat`); rounding comes in when hundredths are printed.
-/

namespace ExtensionAudit

/-! ## Rounding -/

section Rounding

variable {num other den : Nat}

/-- Rounding is off by half a unit at most. -/
theorem roundHalfEven_bounds (hden : 0 < den) :
    2 * num ≤ (2 * roundHalfEven num den + 1) * den ∧
    2 * roundHalfEven num den * den ≤ 2 * num + den := by
  have hdiv := Nat.div_add_mod num den
  have hmod := Nat.mod_lt num hden
  rw [roundHalfEven]
  generalize num / den = q at *
  generalize num % den = r at *
  have hq : 2 * q * den = 2 * (den * q) := by ring
  have hup : (2 * (q + 1) + 1) * den = 2 * (den * q) + 3 * den := by ring
  have hnext : 2 * (q + 1) * den = 2 * (den * q) + 2 * den := by ring
  have hodd : (2 * q + 1) * den = 2 * (den * q) + den := by ring
  simp only [Bool.or_eq_true, Bool.and_eq_true, decide_eq_true_eq, beq_iff_eq]
  split_ifs <;> omega

theorem roundHalfEven_mul_right (num den : Nat) {k : Nat} (hk : 0 < k) :
    roundHalfEven (num * k) (den * k) = roundHalfEven num den := by
  have hrest : 2 * (num % den * k) = 2 * (num % den) * k := by ring
  have hmore : den * k < 2 * (num % den) * k ↔ den < 2 * (num % den) :=
    Nat.mul_lt_mul_right hk
  have htie : 2 * (num % den) * k = den * k ↔ 2 * (num % den) = den :=
    Nat.mul_left_inj (Nat.ne_of_gt hk)
  rw [roundHalfEven, roundHalfEven, Nat.mul_div_mul_right _ _ hk,
    Nat.mul_mod_mul_right, hrest]
  simp [hmore, htie]

/-- Rounding goes by the quotient alone. -/
theorem roundHalfEven_eq_of_mul_eq {num' den' : Nat} (hden : 0 < den) (hden' : 0 < den')
    (h : num * den' = num' * den) : roundHalfEven num den = roundHalfEven num' den' := by
  rw [← roundHalfEven_mul_right num den hden', h, Nat.mul_comm den den',
    roundHalfEven_mul_right num' den' hden]

theorem roundHalfEven_mul_self (n : Nat)
    (hden : 0 < den) : roundHalfEven (n * den) den = n := by
  rw [roundHalfEven, Nat.mul_div_cancel n hden, Nat.mul_mod_left]
  simp [Nat.ne_of_lt hden]

theorem roundHalfEven_mono (h : num ≤ other) :
    roundHalfEven num den ≤ roundHalfEven other den := by
  have hdiv := Nat.div_add_mod num den
  have hdiv' := Nat.div_add_mod other den
  have hle : num / den ≤ other / den := Nat.div_le_div_right h
  rw [roundHalfEven, roundHalfEven]
  generalize num / den = q at *
  generalize other / den = q' at *
  simp only [Bool.or_eq_true, Bool.and_eq_true, decide_eq_true_eq, beq_iff_eq]
  rcases Nat.lt_or_eq_of_le hle with hlt | rfl
  · split_ifs <;> omega
  · -- with the same integer part it is the rest that decides
    have hrest : num % den ≤ other % den := by omega
    split_ifs <;> omega

/-- What is at least an integer is not rounded below it. -/
theorem le_roundHalfEven {n : Nat} (hden : 0 < den)
    (h : n * den ≤ num) : n ≤ roundHalfEven num den := by
  rw [← roundHalfEven_mul_self n hden]
  exact roundHalfEven_mono h

theorem roundHalfEven_le {n : Nat} (hden : 0 < den)
    (h : num ≤ n * den) : roundHalfEven num den ≤ n := by
  rw [← roundHalfEven_mul_self n hden]
  exact roundHalfEven_mono h

end Rounding

/-! ## Exact doubles -/

namespace Binary64

/-- The double is the quotient itself. -/
def IsQuotient (x : Binary64) (num den : Nat) : Prop :=
  ∃ mantissa exponent, x = .finite false mantissa exponent ∧
    (quotient mantissa exponent).1 * den = num * (quotient mantissa exponent).2

theorem quotient_pos (mantissa : Nat) (exponent : Int) :
    0 < (quotient mantissa exponent).2 := by
  cases exponent with
  | ofNat k => exact Nat.one_pos
  | negSucc k => exact Nat.two_pow_pos (k + 1)

variable {x : Binary64} {num den : Nat}

theorem IsQuotient.ltInt_iff (h : x.IsQuotient num den) (hden : 0 < den) (n : Nat) :
    x.ltInt n = true ↔ num < n * den := by
  obtain ⟨mantissa, exponent, rfl, hquotient⟩ := h
  have hpos := quotient_pos mantissa exponent
  show decide (((quotient mantissa exponent).1 : Int) <
      n * (quotient mantissa exponent).2) = true ↔ _
  rw [decide_eq_true_eq]
  generalize (quotient mantissa exponent).1 = a at *
  generalize (quotient mantissa exponent).2 = b at *
  rw [← Int.natCast_mul, Int.ofNat_lt, ← Nat.mul_lt_mul_right hden, hquotient,
    Nat.mul_right_comm, Nat.mul_lt_mul_right hpos]

theorem IsQuotient.fixedText (h : x.IsQuotient num den) (hden : 0 < den) :
    x.fixedText = hundredthsText (roundHalfEven (100 * num) den) := by
  obtain ⟨mantissa, exponent, rfl, hquotient⟩ := h
  have hround : roundHalfEven ((quotient mantissa exponent).1 * 100)
      (quotient mantissa exponent).2 =
      roundHalfEven (100 * num) den := by
    apply roundHalfEven_eq_of_mul_eq (quotient_pos mantissa exponent) hden
    rw [Nat.mul_right_comm, hquotient]
    ring
  rw [← hround]
  rfl

theorem IsQuotient.congr {num' den' : Nat} (h : x.IsQuotient num den) (hden : 0 < den)
    (heq : num * den' = num' * den) : x.IsQuotient num' den' := by
  obtain ⟨mantissa, exponent, rfl, hquotient⟩ := h
  refine ⟨mantissa, exponent, rfl, Nat.eq_of_mul_eq_mul_right hden ?_⟩
  generalize (quotient mantissa exponent).1 = a at *
  generalize (quotient mantissa exponent).2 = b at *
  calc a * den' * den
    _ = a * den * den' := Nat.mul_right_comm a den' den
    _ = num * den' * b := by rw [hquotient, Nat.mul_right_comm]
    _ = num' * b * den := by rw [heq, Nat.mul_right_comm]

theorem quotient_neg (mantissa g : Nat) : quotient mantissa (-(g : Int)) =
    (mantissa, 2 ^ g) := by
  cases g with
  | zero => simp [quotient]
  | succ k => rfl

theorem rounded_of_lead_neg {g : Nat} (h : leadExponent num den = -(g : Int)) :
    rounded num den = roundHalfEven (num * 2 ^ g) den := by
  rw [rounded, h]
  cases g with
  | zero => simp [scaled]
  | succ k => rfl

/-- The power of two below a quotient that is an integer by a power of two. -/
theorem floorLog2_of_mul_eq {n j : Nat} (hden : 0 < den) (hj : j ≤ n.log2) (hn : n ≠ 0)
    (h : num * 2 ^ j = n * den) :
    floorLog2 num den = (n.log2 - j : Nat) := by
  have hnum : 0 < num := by
    have hpos : 0 < n * den := Nat.mul_pos (Nat.pos_of_ne_zero hn) hden
    rw [← h] at hpos
    exact Nat.pos_of_mul_pos_right hpos
  have hscale (k : Nat) : den * 2 ^ k ≤ num ↔ 2 ^ (k + j) ≤ n := by
    rw [← Nat.mul_le_mul_right_iff (Nat.two_pow_pos j), h, Nat.mul_assoc, ← Nat.pow_add,
      Nat.mul_comm, Nat.mul_le_mul_right_iff hden]
  have hlow := (le_floorLog2_iff hnum hden (n.log2 - j)).mpr (by
    rw [hscale, Nat.sub_add_cancel hj]
    exact Nat.log2_self_le hn)
  have hhigh : ¬ ((n.log2 - j + 1 : Nat) : Int) ≤ floorLog2 num den := by
    rw [le_floorLog2_iff hnum hden, hscale, Nat.not_le]
    have hlt : n < 2 ^ (n.log2 + 1) := Nat.lt_log2_self
    have hexponent : n.log2 - j + 1 + j = n.log2 + 1 := by omega
    rwa [hexponent]
  omega

/-- The double nearest to a quotient that is an integer below 2^53 by a power of two,
and at least one, is the quotient itself. -/
theorem isQuotient_ofQuotient {n j : Nat} (hden : 0 < den)
    (hn : n < 2 ^ 53) (hj : 2 ^ j ≤ n) (h : num * 2 ^ j = n * den) :
    (ofQuotient false num den).IsQuotient num den := by
  have hne : n ≠ 0 := Nat.ne_of_gt (Nat.lt_of_lt_of_le (Nat.two_pow_pos j) hj)
  have hlog : j ≤ n.log2 := (Nat.le_log2 hne).mpr hj
  have hfew : n.log2 < 53 := (Nat.log2_lt hne).mpr hn
  have hnum : 0 < num := by
    have hpos : 0 < n * den := Nat.mul_pos (Nat.pos_of_ne_zero hne) hden
    rw [← h] at hpos
    exact Nat.pos_of_mul_pos_right hpos
  -- shifted so that its mantissa has 53 bits, the quotient is an integer
  have hlead : leadExponent num den = -((52 - n.log2 + j : Nat) : Int) := by
    rw [leadExponent, floorLog2_of_mul_eq hden hlog hne h]
    omega
  have hinteger : num * 2 ^ (52 - n.log2 + j) = n * 2 ^ (52 - n.log2) * den := by
    rw [Nat.pow_add, Nat.mul_left_comm, h]
    ring
  have hrounded : rounded num den = n * 2 ^ (52 - n.log2) := by
    rw [rounded_of_lead_neg hlead, hinteger, roundHalfEven_mul_self _ hden]
  have hsmall : n * 2 ^ (52 - n.log2) < 2 ^ 53 := by
    calc n * 2 ^ (52 - n.log2)
      _ < 2 ^ (n.log2 + 1) * 2 ^ (52 - n.log2) :=
        Nat.mul_lt_mul_of_pos_right Nat.lt_log2_self (Nat.two_pow_pos _)
      _ = 2 ^ 53 := by
        rw [← Nat.pow_add]
        congr 1
        omega
  have hfinite : ofQuotient false num den =
      .finite false (n * 2 ^ (52 - n.log2)) (-((52 - n.log2 + j : Nat) : Int)) := by
    rw [ofQuotient_of_pos false hnum, hrounded, if_neg (Nat.ne_of_lt hsmall), hlead,
      if_neg (by omega)]
  refine ⟨_, _, hfinite, ?_⟩
  rw [quotient_neg]
  exact hinteger.symm

/-- Division by a power of two is exact as long as the quotient is at least one. -/
theorem IsQuotient.divNat {n i j : Nat} (h : x.IsQuotient n (2 ^ i)) (hn : n < 2 ^ 53)
    (hle : 2 ^ (i + j) ≤ n) :
    (x.divNat (2 ^ j)).IsQuotient n (2 ^ (i + j)) := by
  obtain ⟨mantissa, exponent, rfl, hquotient⟩ := h
  have hpos := quotient_pos mantissa exponent
  show (ofQuotient false (quotient mantissa exponent).1
      ((quotient mantissa exponent).2 * 2 ^ j)).IsQuotient _ _
  generalize (quotient mantissa exponent).1 = a at *
  generalize (quotient mantissa exponent).2 = b at *
  have hscaled : a * 2 ^ (i + j) = n * (b * 2 ^ j) := by
    rw [Nat.pow_add, ← Nat.mul_assoc, hquotient, Nat.mul_assoc]
  have hden : 0 < b * 2 ^ j := Nat.mul_pos hpos (Nat.two_pow_pos j)
  exact (isQuotient_ofQuotient hden hn hle hscaled).congr hden hscaled

end Binary64

end ExtensionAudit
