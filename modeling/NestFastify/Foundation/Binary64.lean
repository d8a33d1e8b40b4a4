import Mathlib.Data.Int.Log
import Mathlib.Data.Rat.Floor
import Mathlib.Tactic.Ring

/-!
# Rounding to a double

`round q` is the double nearest to a rational number, of two that are equally near the one with the
even last place: what one arithmetic operation on doubles makes of its exact result. Overflow is
left out.
-/

namespace Binary64

/-- The nearest integer, of two that are equally near the even one. -/
def roundTiesToEven (q : ℚ) : ℤ :=
  let rest := q - ⌊q⌋
  if rest < 1 / 2 ∨ rest = 1 / 2 ∧ Even ⌊q⌋ then ⌊q⌋ else ⌊q⌋ + 1

/-- The exponent of the last of 53 places; subnormal numbers have fewer. -/
def lastPlace (q : ℚ) : ℤ := max (Int.log 2 |q| - 52) (-1074)

def round (q : ℚ) : ℚ := roundTiesToEven (q / 2 ^ lastPlace q) * 2 ^ lastPlace q

theorem roundTiesToEven_intCast (n : ℤ) : roundTiesToEven n = n := by
  have hrest : (n : ℚ) - ⌊(n : ℚ)⌋ < 1 / 2 := by
    rw [Int.floor_intCast, sub_self]
    exact one_half_pos
  rw [roundTiesToEven, if_pos (Or.inl hrest), Int.floor_intCast]

theorem round_zero : round 0 = 0 := by
  have hzero : roundTiesToEven 0 = 0 := roundTiesToEven_intCast 0
  rw [round, zero_div, hzero, Int.cast_zero, zero_mul]

theorem lastPlace_le {m e : ℤ} (h0 : m ≠ 0) (hm : |m| < 2 ^ 53) (he : -1074 ≤ e) :
    lastPlace (m * 2 ^ e) ≤ e := by
  have hpow : (0 : ℚ) < 2 ^ e := zpow_pos (by decide) e
  have hpos : 0 < |(m : ℚ) * 2 ^ e| :=
    abs_pos.mpr (mul_ne_zero (Int.cast_ne_zero.mpr h0) (ne_of_gt hpow))
  have hlt : |(m : ℚ) * 2 ^ e| < ((2 : ℕ) : ℚ) ^ (53 + e) := by
    have hm' : |(m : ℚ)| < 2 ^ (53 : ℤ) := by exact_mod_cast hm
    rw [abs_mul, abs_of_pos hpow, Nat.cast_two, zpow_add₀ (by decide)]
    exact mul_lt_mul_of_pos_right hm' hpow
  have hlog := (Int.lt_zpow_iff_log_lt (by decide) hpos).mp hlt
  exact max_le (by omega) he

/-- A number that fits into 53 places is a double. -/
theorem round_of_fits {m e : ℤ} (hm : |m| < 2 ^ 53) (he : -1074 ≤ e) :
    round (m * 2 ^ e) = m * 2 ^ e := by
  by_cases h0 : m = 0
  · rw [h0, Int.cast_zero, zero_mul, round_zero]
  obtain ⟨k, hk⟩ := Int.le.dest (lastPlace_le h0 hm he)
  have hquotient : (m : ℚ) * 2 ^ e / 2 ^ lastPlace (m * 2 ^ e) = ((m * 2 ^ k : ℤ) : ℚ) := by
    rw [div_eq_iff (zpow_ne_zero _ (by decide))]
    nth_rewrite 1 [← hk]
    rw [zpow_add₀ (by decide), zpow_natCast]
    push_cast
    ring
  rw [round, hquotient, roundTiesToEven_intCast, ← hquotient,
    div_mul_cancel₀ _ (zpow_ne_zero _ (by decide))]

theorem round_natCast {n : ℕ} (hn : n < 2 ^ 53) : round n = n := by
  have hfits : |(n : ℤ)| < 2 ^ 53 := by
    rw [Nat.abs_cast]
    exact_mod_cast hn
  have h := @round_of_fits n 0 hfits (by decide)
  rwa [zpow_zero, mul_one, Int.cast_natCast] at h

/-- `1.1 * 1000` is `1100`, and `1.001 * 1000` is `1000.9999999999999`. -/
example : round (round (11 / 10) * 1000) = 1100 ∧
    round (round (1001 / 1000) * 1000) = round (10009999999999999 / 10000000000000) := by
  decide +kernel

end Binary64
