import Mathlib.Data.Int.Log
import Mathlib.Data.Rat.Floor
import Mathlib.Tactic.FieldSimp
import Mathlib.Tactic.Linarith
import Mathlib.Tactic.Positivity
import Mathlib.Tactic.Ring

/-! Rounding of rational numbers to 53 binary digits, to nearest with ties to even.
The exponent has no bounds: this is the arithmetic of a binary64 number as long as results stay in
the range of the normal ones. -/
namespace Binary64

/-- The nearest integer, or the even one of two. -/
def roundEven (x : ℚ) : ℤ :=
  if x - ⌊x⌋ < 1 / 2 then ⌊x⌋
  else if 1 / 2 < x - ⌊x⌋ then ⌊x⌋ + 1
  else if ⌊x⌋ % 2 = 0 then ⌊x⌋ else ⌊x⌋ + 1

/-- The exponent of the last of the 53 digits. -/
def exponent (q : ℚ) : ℤ := Int.log 2 |q| - 52

def round (q : ℚ) : ℚ := roundEven (q / 2 ^ exponent q) * 2 ^ exponent q

variable {q x : ℚ}

theorem roundEven_intCast (n : ℤ) : roundEven n = n := by
  rw [roundEven, Int.floor_intCast, sub_self, if_pos (by norm_num)]

theorem abs_roundEven_sub_le (x : ℚ) : |(roundEven x : ℚ) - x| ≤ 1 / 2 := by
  have hle := Int.floor_le x
  have hlt := Int.lt_floor_add_one x
  rw [roundEven, abs_le]
  split_ifs with hdown hup
  · constructor
    · linarith
    · linarith
  · push_cast
    constructor
    · linarith
    · linarith
  · constructor
    · linarith
    · linarith
  · push_cast
    constructor
    · linarith
    · linarith

theorem two_zpow_pos (e : ℤ) : (0 : ℚ) < 2 ^ e := zpow_pos two_pos e

/-- The error is at most half of the last digit. -/
theorem abs_round_sub_le (hq : q ≠ 0) : |round q - q| ≤ |q| / 2 ^ 53 := by
  have hpos := two_zpow_pos (exponent q)
  have hlog : (2 : ℚ) ^ Int.log 2 |q| ≤ |q| := by
    have h := Int.zpow_log_le_self (b := 2) (by decide) (abs_pos.mpr hq)
    simpa using h
  have hulp : (2 : ℚ) ^ exponent q = 2 ^ Int.log 2 |q| / 2 ^ 52 := by
    rw [exponent, zpow_sub₀ two_ne_zero]
    rfl
  have hscaled : round q - q =
      (roundEven (q / 2 ^ exponent q) - q / 2 ^ exponent q) * 2 ^ exponent q := by
    rw [round, sub_mul, div_mul_cancel₀ _ hpos.ne']
  calc |round q - q|
      = |(roundEven (q / 2 ^ exponent q) : ℚ) - q / 2 ^ exponent q| * 2 ^ exponent q := by
        rw [hscaled, abs_mul, abs_of_pos hpos]
    _ ≤ 1 / 2 * 2 ^ exponent q :=
        mul_le_mul_of_nonneg_right (abs_roundEven_sub_le _) hpos.le
    _ = 2 ^ Int.log 2 |q| / 2 ^ 53 := by
        rw [hulp]
        ring
    _ ≤ |q| / 2 ^ 53 := by
        apply div_le_div_of_nonneg_right hlog
        positivity

theorem round_intCast {n : ℤ} (h : |n| < 2 ^ 53) : round n = n := by
  by_cases hn : n = 0
  · subst hn
    rw [round, Int.cast_zero, zero_div]
    norm_num [roundEven]
  · have habs : (0 : ℚ) < |(n : ℚ)| := abs_pos.mpr (Int.cast_ne_zero.mpr hn)
    have hle : exponent n ≤ 0 := by
      have hlt : Int.log 2 |(n : ℚ)| < 53 := by
        rw [← Int.lt_zpow_iff_log_lt (by decide) habs]
        exact_mod_cast h
      rw [exponent]
      omega
    obtain ⟨k, hk⟩ := Int.eq_ofNat_of_zero_le (Int.neg_nonneg_of_nonpos hle)
    have hpow : (2 : ℚ) ^ exponent n = (2 ^ k)⁻¹ := by
      rw [show exponent n = -(k : ℤ) by omega, zpow_neg, zpow_natCast]
    have hdigits : (n : ℚ) / 2 ^ exponent n = ((n * 2 ^ k : ℤ) : ℚ) := by
      rw [hpow, div_inv_eq_mul]
      push_cast
      rfl
    rw [round, hdigits, roundEven_intCast, ← hdigits,
      div_mul_cancel₀ _ (two_zpow_pos _).ne']

/-- A quotient of integers of 53 digits is rounded to the same side of every integer. -/
theorem ceil_round_div {a b : ℤ} (ha : 0 < a) (hb : 0 < b) (h : a < 2 ^ 53) :
    ⌈round ((a : ℚ) / b)⌉ = ⌈(a : ℚ) / b⌉ := by
  have hbq : (0 : ℚ) < b := Int.cast_pos.mpr hb
  have haq : (0 : ℚ) < a := Int.cast_pos.mpr ha
  have hqpos : (0 : ℚ) < a / b := div_pos haq hbq
  have hup := Int.le_ceil ((a : ℚ) / b)
  have hdown := Int.ceil_lt_add_one ((a : ℚ) / b)
  generalize hc : ⌈(a : ℚ) / b⌉ = c at hup hdown ⊢
  by_cases heq : (a : ℚ) / b = c
  · have hcpos : (0 : ℚ) < c := heq ▸ hqpos
    have hca : c ≤ a := by
      have hmul : (a : ℚ) = c * b := by rw [← heq, div_mul_cancel₀ _ hbq.ne']
      have hmul' : a = c * b := by exact_mod_cast hmul
      have hc0 : 0 < c := Int.cast_pos.mp hcpos
      nlinarith
    have hsmall : |c| < 2 ^ 53 := by
      rw [abs_of_pos (Int.cast_pos.mp hcpos)]
      exact lt_of_le_of_lt hca h
    rw [heq, round_intCast hsmall, Int.ceil_intCast]
  · -- the quotient is at least a `b`-th away from both neighbours, more than the error
    have herror : |round ((a : ℚ) / b) - a / b| < 1 / b := by
      calc |round ((a : ℚ) / b) - a / b| ≤ |(a : ℚ) / b| / 2 ^ 53 := abs_round_sub_le hqpos.ne'
        _ = a / 2 ^ 53 / b := by
            rw [abs_of_pos hqpos]
            ring
        _ < 1 / b := by
            apply div_lt_div_of_pos_right _ hbq
            rw [div_lt_one (by positivity)]
            exact_mod_cast h
    have habove : (a : ℚ) / b + 1 / b ≤ c := by
      have hlt : (a : ℚ) < c * b := by
        rw [← div_lt_iff₀ hbq]
        exact lt_of_le_of_ne hup heq
      have hle : a + 1 ≤ c * b := by exact_mod_cast hlt
      rw [← add_div, div_le_iff₀ hbq]
      exact_mod_cast hle
    have hbelow : (c : ℚ) - 1 + 1 / b ≤ a / b := by
      have hlt : ((c : ℚ) - 1) * b < a := by
        rw [← lt_div_iff₀ hbq]
        linarith
      have hle : (c - 1) * b + 1 ≤ a := by exact_mod_cast hlt
      rw [← sub_nonneg, show (a : ℚ) / b - (c - 1 + 1 / b) = (a - ((c - 1) * b + 1)) / b by
        field_simp]
      apply div_nonneg _ hbq.le
      have hcast : (((c - 1) * b + 1 : ℤ) : ℚ) ≤ a := by exact_mod_cast hle
      push_cast at hcast
      linarith
    obtain ⟨hlow, hhigh⟩ := abs_lt.mp herror
    rw [Int.ceil_eq_iff]
    constructor
    · linarith
    · linarith

end Binary64
