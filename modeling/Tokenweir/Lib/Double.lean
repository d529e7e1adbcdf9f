import Mathlib.Data.Int.Log
import Mathlib.Tactic

/-!
# Doubles

The rounding of a number to a binary floating-point number of 64 bits, to the nearest one, and to
the even one between two.

* `roundHalfEven`; `roundDouble`;
* `IsDouble`; `roundDouble_eq`, what a double represents is not rounded;
* `roundDouble_eq_none`, a number that is too large; `trueDivide`.
-/

namespace Tokenweir

/-- The nearest integer, the even one of two. -/
def roundHalfEven (x : ℚ) : ℤ :=
  let n := ⌊x⌋
  if x - n < 1 / 2 then n
  else if 1 / 2 < x - n then n + 1
  else if n % 2 = 0 then n
  else n + 1

/-- The exponent of the last bit of a double near a number. -/
def lastExponent (x : ℚ) : ℤ := max (Int.log 2 |x| - 52) (-1074)

/-- The double nearest to a number; none if it is too large. -/
def roundDouble (x : ℚ) : Option ℚ :=
  let y := (roundHalfEven (x / 2 ^ lastExponent x) : ℚ) * 2 ^ lastExponent x
  if |y| < 2 ^ 1024 then some y else none

/-- A number that a double represents. -/
def IsDouble (x : ℚ) : Prop :=
  ∃ m e : ℤ, |m| < 2 ^ 53 ∧ -1074 ≤ e ∧ e ≤ 971 ∧ x = m * 2 ^ e

theorem roundHalfEven_intCast (n : ℤ) : roundHalfEven n = n := by
  simp [roundHalfEven]

/-- The last bit of a double is not below that of its own representation. -/
theorem lastExponent_le {m e : ℤ} (hm : |m| < 2 ^ 53) (hm₀ : m ≠ 0) (he : -1074 ≤ e) :
    lastExponent (m * 2 ^ e) ≤ e := by
  refine max_le ?_ he
  have hpos : (0 : ℚ) < |(m : ℚ) * 2 ^ e| := abs_pos.2 (by positivity)
  have hlt : |(m : ℚ) * 2 ^ e| < (2 : ℕ) ^ (53 + e) := by
    have hm' : |(m : ℚ)| < 2 ^ 53 := by exact_mod_cast hm
    rw [abs_mul, abs_of_pos (by positivity : (0 : ℚ) < 2 ^ e), Nat.cast_ofNat,
      zpow_add₀ two_ne_zero]
    exact mul_lt_mul_of_pos_right (by exact_mod_cast hm') (by positivity)
  have hlog := (Int.lt_zpow_iff_log_lt one_lt_two hpos).1 hlt
  omega

/-- **A number that a double represents** is not rounded. -/
theorem roundDouble_eq {x : ℚ} (h : IsDouble x) : roundDouble x = some x := by
  obtain ⟨m, e, hm, he, he', rfl⟩ := h
  have hround : (roundHalfEven (m * 2 ^ e / 2 ^ lastExponent (m * 2 ^ e)) : ℚ) *
      2 ^ lastExponent (m * 2 ^ e) = m * 2 ^ e := by
    by_cases hm₀ : m = 0
    · subst hm₀
      simp [roundHalfEven]
    · -- in units of the last bit, it is an integer
      obtain ⟨k, hk⟩ := Int.le.dest (lastExponent_le hm hm₀ he)
      have hunits : (m * 2 ^ e : ℚ) / 2 ^ lastExponent (m * 2 ^ e) = ((m * 2 ^ k : ℤ) : ℚ) := by
        rw [div_eq_iff (by positivity)]
        push_cast
        rw [mul_assoc, ← zpow_natCast, ← zpow_add₀ two_ne_zero, add_comm, hk]
      rw [hunits, roundHalfEven_intCast, ← hunits]
      exact div_mul_cancel₀ _ (by positivity)
  have hlarge : |(m * 2 ^ e : ℚ)| < 2 ^ 1024 := by
    have hm' : |(m : ℚ)| < 2 ^ 53 := by exact_mod_cast hm
    have he'' : (2 : ℚ) ^ e ≤ 2 ^ (971 : ℤ) := zpow_le_zpow_right₀ one_le_two he'
    rw [abs_mul, abs_of_pos (by positivity : (0 : ℚ) < 2 ^ e)]
    calc |(m : ℚ)| * 2 ^ e < 2 ^ 53 * 2 ^ e := mul_lt_mul_of_pos_right hm' (by positivity)
      _ ≤ 2 ^ 53 * 2 ^ (971 : ℤ) := mul_le_mul_of_nonneg_left he'' (by positivity)
      _ = 2 ^ 1024 := by rw [← zpow_natCast, ← zpow_add₀ two_ne_zero, ← zpow_natCast]; rfl
  unfold roundDouble
  dsimp only
  rw [hround, if_pos hlarge]

theorem le_roundHalfEven {n : ℤ} {x : ℚ} (h : n ≤ x) : n ≤ roundHalfEven x := by
  have hfloor : n ≤ ⌊x⌋ := Int.le_floor.2 h
  unfold roundHalfEven
  dsimp only
  split_ifs <;> omega

/-- **A number of `2 ^ 1024` or more** is too large for a double. -/
theorem roundDouble_eq_none {x : ℚ} (h : 2 ^ 1024 ≤ x) : roundDouble x = none := by
  have hpos : 0 < x := lt_of_lt_of_le (by positivity) h
  have hle : ((2 : ℕ) : ℚ) ^ Int.log 2 x ≤ x := Int.zpow_log_le_self one_lt_two hpos
  have hlog : 1024 ≤ Int.log 2 x := by
    refine (Int.zpow_le_iff_le_log one_lt_two hpos).1 ?_
    rwa [Nat.cast_ofNat, zpow_ofNat]
  have hexponent : lastExponent x = Int.log 2 x - 52 := by
    rw [lastExponent, abs_of_pos hpos]
    omega
  have hsplit : (2 : ℚ) ^ Int.log 2 x = 2 ^ (52 : ℤ) * 2 ^ lastExponent x := by
    rw [hexponent, ← zpow_add₀ two_ne_zero]
    congr 1
    omega
  rw [Nat.cast_ofNat, hsplit] at hle
  -- in units of the last bit, it is `2 ^ 52` or more
  have hunits : ((2 ^ 52 : ℤ) : ℚ) ≤ x / 2 ^ lastExponent x := by
    rw [le_div_iff₀ (by positivity)]
    exact_mod_cast hle
  have hround : (2 : ℚ) ^ (52 : ℤ) ≤ roundHalfEven (x / 2 ^ lastExponent x) := by
    exact_mod_cast le_roundHalfEven hunits
  have hlarge : (2 : ℚ) ^ 1024 ≤
      roundHalfEven (x / 2 ^ lastExponent x) * 2 ^ lastExponent x := by
    calc (2 : ℚ) ^ 1024 ≤ 2 ^ Int.log 2 x := by
          exact_mod_cast zpow_le_zpow_right₀ (one_le_two : (1 : ℚ) ≤ 2) hlog
      _ = 2 ^ (52 : ℤ) * 2 ^ lastExponent x := hsplit
      _ ≤ _ := mul_le_mul_of_nonneg_right hround (by positivity)
  unfold roundDouble
  dsimp only
  rw [if_neg (not_lt.2 (hlarge.trans (le_abs_self _)))]

/-- The quotient of two integers as a double, `a / b`; none if it is too large. -/
def trueDivide (a b : ℤ) : Option ℚ := roundDouble (a / b)

end Tokenweir
