import Mathlib.Data.Int.Log
import Mathlib.Data.Rat.Floor
import Mathlib.Tactic.Linarith
import Mathlib.Tactic.Positivity
import Mathlib.Tactic.Ring

/-!
# Rounding to a number of significant bits

A binary floating-point operation computes its exact result and rounds it to the nearest number with
a significand of `p` bits, to the even one of two that are equally near.  The range of the exponent
is left out: the numbers here are far from its ends.

* `abs_roundTo_sub_le`: the relative error is at most `2⁻ᵖ`.
* `roundTo_natCast`: a natural number of at most `p` bits is not changed.
-/

namespace Idhan

/-- The nearest integer, and the even one of two. -/
def roundEven (q : ℚ) : ℤ :=
  if 2 * (q - ⌊q⌋) < 1 then ⌊q⌋
  else if 1 < 2 * (q - ⌊q⌋) then ⌊q⌋ + 1
  else if ⌊q⌋ % 2 = 0 then ⌊q⌋
  else ⌊q⌋ + 1

/-- The unit in the last of `p` places of a positive number. -/
def ulp (p : ℕ) (q : ℚ) : ℚ :=
  2 ^ (Int.log 2 q + 1 - p)

/-- A positive number, rounded to `p` significant bits. -/
def roundTo (p : ℕ) (q : ℚ) : ℚ :=
  roundEven (q / ulp p q) * ulp p q

/-- A number as a `double`: with 53 significant bits. -/
def toDouble (q : ℚ) : ℚ :=
  if q < 0 then -roundTo 53 (-q) else roundTo 53 q

theorem abs_roundEven_sub_le (q : ℚ) : |(roundEven q : ℚ) - q| ≤ 1 / 2 := by
  have hfloor : (⌊q⌋ : ℚ) ≤ q := Int.floor_le q
  have hlt : q < ⌊q⌋ + 1 := Int.lt_floor_add_one q
  rw [abs_le]
  unfold roundEven
  split_ifs <;> push_cast <;> constructor <;> linarith

theorem roundEven_intCast (n : ℤ) : roundEven n = n := by
  unfold roundEven
  rw [Int.floor_intCast, sub_self, mul_zero, if_pos one_pos]

theorem ulp_pos (p : ℕ) (q : ℚ) : 0 < ulp p q :=
  zpow_pos two_pos _

/-- The unit of a number is small against the number. -/
theorem ulp_le {q : ℚ} (hq : 0 < q) (p : ℕ) : ulp p q ≤ q * 2 ^ (1 - p : ℤ) := by
  have hlog : (2 : ℚ) ^ Int.log 2 q ≤ q := by exact_mod_cast Int.zpow_log_le_self one_lt_two hq
  have hsplit : ulp p q = 2 ^ Int.log 2 q * 2 ^ (1 - p : ℤ) := by
    rw [ulp, ← zpow_add₀ two_ne_zero]
    congr 1
    ring
  rw [hsplit]
  exact mul_le_mul_of_nonneg_right hlog (zpow_pos two_pos _).le

/-- **The error of a rounded number**, relative to the number. -/
theorem abs_roundTo_sub_le {q : ℚ} (hq : 0 < q) (p : ℕ) : |roundTo p q - q| ≤ q * 2 ^ (-p : ℤ) := by
  have hpos := ulp_pos p q
  have hdiff : roundTo p q - q = (roundEven (q / ulp p q) - q / ulp p q) * ulp p q := by
    rw [roundTo, sub_mul, div_mul_cancel₀ _ hpos.ne']
  have hhalf : (2 : ℚ) ^ (1 - p : ℤ) = 2 * 2 ^ (-p : ℤ) := by
    rw [sub_eq_add_neg, zpow_add₀ two_ne_zero, zpow_one]
  calc |roundTo p q - q|
      = |(roundEven (q / ulp p q) : ℚ) - q / ulp p q| * ulp p q := by
        rw [hdiff, abs_mul, abs_of_pos hpos]
    _ ≤ 1 / 2 * ulp p q := mul_le_mul_of_nonneg_right (abs_roundEven_sub_le _) hpos.le
    _ ≤ 1 / 2 * (q * 2 ^ (1 - p : ℤ)) := mul_le_mul_of_nonneg_left (ulp_le hq p) (by norm_num)
    _ = q * 2 ^ (-p : ℤ) := by rw [hhalf]; ring

/-- A natural number that has at most `p` bits is not changed. -/
theorem roundTo_natCast {p n : ℕ} (hn : n < 2 ^ p) (hpos : 0 < n) : roundTo p n = n := by
  have hlog : Int.log 2 (n : ℚ) = (Nat.log 2 n : ℤ) := Int.log_natCast 2 n
  have hbits : Nat.log 2 n + 1 ≤ p := Nat.log_lt_of_lt_pow hpos.ne' hn
  obtain ⟨k, rfl⟩ := Nat.exists_eq_add_of_le hbits
  have hulp : ulp (Nat.log 2 n + 1 + k) (n : ℚ) = (2 ^ k : ℚ)⁻¹ := by
    rw [ulp, hlog, ← zpow_natCast, ← zpow_neg]
    congr 1
    push_cast
    ring
  have hint : (n : ℚ) / (2 ^ k : ℚ)⁻¹ = ((n * 2 ^ k : ℤ) : ℚ) := by
    rw [div_inv_eq_mul]
    push_cast
    rfl
  rw [roundTo, hulp, hint, roundEven_intCast]
  push_cast
  rw [mul_assoc, mul_inv_cancel₀ (by positivity), mul_one]

end Idhan
