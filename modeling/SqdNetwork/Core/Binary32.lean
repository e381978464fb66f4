import Mathlib.Data.Int.Log
import Mathlib.Data.Rat.Floor
import Mathlib.Tactic.FieldSimp
import Mathlib.Tactic.Linarith
import Mathlib.Tactic.NormNum
import Mathlib.Tactic.Positivity

/-!
# Rounding to single precision

A number that is not negative is rounded to the nearest one with 24 significant
bits, and to an even last bit from halfway between two. Numbers so large or so
small that single precision has no such value for them are out of scope.
-/

namespace SqdNetwork.Core

/-- The nearest integer, the even one of two. -/
def roundEven (q : ℚ) : ℤ :=
  if q - ⌊q⌋ < 1 / 2 then ⌊q⌋
  else if 1 / 2 < q - ⌊q⌋ then ⌊q⌋ + 1
  else if ⌊q⌋ % 2 = 0 then ⌊q⌋ else ⌊q⌋ + 1

/-- The place of the last bit of a number. -/
def lastBit (q : ℚ) : ℤ := Int.log 2 q - 23

/-- The nearest number with 24 significant bits. -/
def binary32 (q : ℚ) : ℚ :=
  if q ≤ 0 then 0 else roundEven (q / 2 ^ lastBit q) * 2 ^ lastBit q

variable {q r : ℚ}

theorem floor_le_roundEven (q : ℚ) : ⌊q⌋ ≤ roundEven q := by
  unfold roundEven
  split
  · exact le_rfl
  · split
    · omega
    · split <;> omega

theorem roundEven_le_floor_add_one (q : ℚ) : roundEven q ≤ ⌊q⌋ + 1 := by
  unfold roundEven
  split
  · omega
  · split
    · exact le_rfl
    · split <;> omega

/-- Rounding moves a number by a half at most. -/
theorem abs_roundEven_sub_le (q : ℚ) : |(roundEven q : ℚ) - q| ≤ 1 / 2 := by
  have hlow := Int.floor_le q
  have hhigh := Int.lt_floor_add_one q
  rw [abs_le]
  unfold roundEven
  split
  · next h =>
    constructor <;> linarith
  · next h =>
    split
    · push_cast
      constructor <;> linarith
    · split
      · constructor <;> linarith
      · push_cast
        constructor <;> linarith

theorem roundEven_intCast (n : ℤ) : roundEven (n : ℚ) = n := by
  simp [roundEven]

theorem roundEven_mono (h : q ≤ r) : roundEven q ≤ roundEven r := by
  rcases lt_or_eq_of_le (Int.floor_mono h) with hlt | heq
  · calc roundEven q ≤ ⌊q⌋ + 1 := roundEven_le_floor_add_one q
      _ ≤ ⌊r⌋ := hlt
      _ ≤ roundEven r := floor_le_roundEven r
  · -- Both have the same integer part, so the fractions decide.
    unfold roundEven
    rw [heq]
    split_ifs <;> first | omega | (exfalso; linarith)

theorem two_zpow_pos (e : ℤ) : (0 : ℚ) < 2 ^ e := zpow_pos (by norm_num) e

theorem two_pow_mul_zpow (n : ℕ) (e : ℤ) : (2 : ℚ) ^ n * 2 ^ e = 2 ^ (n + e) := by
  rw [zpow_add₀ (by norm_num), zpow_natCast]

theorem two_pow_mul_le (hq : 0 < q) : (2 : ℚ) ^ 23 * 2 ^ lastBit q ≤ q := by
  have h := Int.zpow_log_le_self (b := 2) (by norm_num) hq
  rw [two_pow_mul_zpow, show ((23 : ℕ) : ℤ) + lastBit q = Int.log 2 q by unfold lastBit; omega]
  exact_mod_cast h

theorem lt_two_pow_mul (q : ℚ) : q < (2 : ℚ) ^ 24 * 2 ^ lastBit q := by
  have h := Int.lt_zpow_succ_log_self (b := 2) (by norm_num) q
  rw [two_pow_mul_zpow, show ((24 : ℕ) : ℤ) + lastBit q = Int.log 2 q + 1 by unfold lastBit; omega]
  exact_mod_cast h

theorem binary32_of_pos (hq : 0 < q) :
    binary32 q = roundEven (q / 2 ^ lastBit q) * 2 ^ lastBit q := by
  rw [binary32, if_neg (not_le.mpr hq)]

/-- A rounded number is in the same power of two, or at its end. -/
theorem binary32_bounds (hq : 0 < q) :
    (2 : ℚ) ^ 23 * 2 ^ lastBit q ≤ binary32 q ∧ binary32 q ≤ 2 ^ 24 * 2 ^ lastBit q := by
  have hpos := two_zpow_pos (lastBit q)
  have hlow : ((2 ^ 23 : ℤ) : ℚ) ≤ q / 2 ^ lastBit q := by
    rw [le_div_iff₀ hpos]
    push_cast
    exact two_pow_mul_le hq
  have hhigh : q / 2 ^ lastBit q ≤ ((2 ^ 24 : ℤ) : ℚ) := by
    rw [div_le_iff₀ hpos]
    push_cast
    exact (lt_two_pow_mul q).le
  have hlow' := roundEven_mono hlow
  have hhigh' := roundEven_mono hhigh
  rw [roundEven_intCast] at hlow' hhigh'
  rw [binary32_of_pos hq]
  constructor
  · exact mul_le_mul_of_nonneg_right (by exact_mod_cast hlow') hpos.le
  · exact mul_le_mul_of_nonneg_right (by exact_mod_cast hhigh') hpos.le

theorem binary32_nonneg (q : ℚ) : 0 ≤ binary32 q := by
  rcases le_or_gt q 0 with hq | hq
  · rw [binary32, if_pos hq]
  · exact le_trans (mul_nonneg (by norm_num) (two_zpow_pos _).le) (binary32_bounds hq).1

/-- Rounding keeps the order. -/
theorem binary32_mono (h : q ≤ r) : binary32 q ≤ binary32 r := by
  rcases le_or_gt q 0 with hq | hq
  · rw [binary32, if_pos hq]
    exact binary32_nonneg r
  · have hr := lt_of_lt_of_le hq h
    rcases lt_or_eq_of_le (Int.log_mono_right (b := 2) hq h) with hlt | heq
    · -- The end of the smaller power of two is the start of the larger one or before it.
      have hbits : lastBit q + 1 ≤ lastBit r := by
        unfold lastBit
        omega
      calc binary32 q ≤ 2 ^ 24 * 2 ^ lastBit q := (binary32_bounds hq).2
        _ = 2 ^ 23 * 2 ^ (lastBit q + 1) := by
            rw [zpow_add₀ (by norm_num)]
            ring
        _ ≤ 2 ^ 23 * 2 ^ lastBit r := by gcongr; norm_num
        _ ≤ binary32 r := (binary32_bounds hr).1
    · have hbits : lastBit q = lastBit r := by
        unfold lastBit
        rw [heq]
      rw [binary32_of_pos hq, binary32_of_pos hr, hbits]
      have hround := roundEven_mono (div_le_div_of_nonneg_right h (two_zpow_pos (lastBit r)).le)
      exact mul_le_mul_of_nonneg_right (by exact_mod_cast hround) (two_zpow_pos _).le

/-- Rounding changes a number by a small part of it at most. -/
theorem abs_binary32_sub_le (hq : 0 < q) : |binary32 q - q| ≤ q / 2 ^ 24 := by
  have hpos := two_zpow_pos (lastBit q)
  have hround := abs_roundEven_sub_le (q / 2 ^ lastBit q)
  have hscaled : binary32 q - q = (roundEven (q / 2 ^ lastBit q) - q / 2 ^ lastBit q) *
      2 ^ lastBit q := by
    rw [binary32_of_pos hq, sub_mul, div_mul_cancel₀ _ hpos.ne']
  rw [hscaled, abs_mul, abs_of_pos hpos]
  calc |(roundEven (q / 2 ^ lastBit q) : ℚ) - q / 2 ^ lastBit q| * 2 ^ lastBit q
      ≤ 1 / 2 * 2 ^ lastBit q := mul_le_mul_of_nonneg_right hround hpos.le
    _ = 2 ^ 23 * 2 ^ lastBit q / 2 ^ 24 := by ring
    _ ≤ q / 2 ^ 24 := by
        gcongr
        exact two_pow_mul_le hq

theorem binary32_le_mul (hq : 0 ≤ q) : binary32 q ≤ q * (1 + 1 / 2 ^ 24) := by
  rcases hq.eq_or_lt with rfl | hpos
  · simp [binary32]
  · have h := (abs_le.mp (abs_binary32_sub_le hpos)).2
    linarith

/-- Numbers of 24 bits are kept. -/
theorem binary32_mul_zpow {m : ℕ} (hm : m < 2 ^ 24) (e : ℤ) :
    binary32 (m * 2 ^ e) = m * 2 ^ e := by
  rcases Nat.eq_zero_or_pos m with rfl | hmpos
  · simp [binary32]
  · have hq : (0 : ℚ) < m * 2 ^ e := mul_pos (by exact_mod_cast hmpos) (two_zpow_pos e)
    have hbit : lastBit ((m : ℚ) * 2 ^ e) ≤ e := by
      by_contra hgt
      have hle := two_pow_mul_le hq
      have hlt : (m : ℚ) * 2 ^ e < 2 ^ 24 * 2 ^ e :=
        mul_lt_mul_of_pos_right (by exact_mod_cast hm) (two_zpow_pos e)
      have hup : (2 : ℚ) ^ 24 * 2 ^ e ≤ 2 ^ 23 * 2 ^ lastBit ((m : ℚ) * 2 ^ e) := by
        rw [two_pow_mul_zpow, two_pow_mul_zpow]
        exact zpow_le_zpow_right₀ (by norm_num) (by push_cast; omega)
      linarith
    obtain ⟨k, hk⟩ := Int.eq_ofNat_of_zero_le (Int.sub_nonneg.mpr hbit)
    have hpos := two_zpow_pos (lastBit ((m : ℚ) * 2 ^ e))
    have hint : (m : ℚ) * 2 ^ e / 2 ^ lastBit ((m : ℚ) * 2 ^ e) = ((m * 2 ^ k : ℕ) : ℤ) := by
      rw [mul_div_assoc, ← zpow_sub₀ (by norm_num), hk]
      push_cast
      rw [zpow_natCast]
    rw [binary32_of_pos hq, hint, roundEven_intCast, ← hint, div_mul_cancel₀ _ hpos.ne']

/-- Natural numbers of 24 bits are kept. -/
theorem binary32_natCast {m : ℕ} (hm : m < 2 ^ 24) : binary32 m = m := by
  simpa using binary32_mul_zpow hm 0

end SqdNetwork.Core
