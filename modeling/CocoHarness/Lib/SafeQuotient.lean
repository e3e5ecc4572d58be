/-
# CocoHarness.Lib.SafeQuotient — products and floored quotients of doubles.

A quotient of two integers is rarely an integer, so a double holds the nearest multiple of its last
binary place, and the floor of that multiple need not be the floor of the quotient: a quotient just
below an integer can be rounded up to it.  `floor_fdiv` says that it is not as long as the dividend
stays below `2^53`, whatever the divisor.
-/
import CocoHarness.Lib.SafeInteger
import Mathlib.Data.Int.Log
import Mathlib.Data.Rat.Floor

namespace CocoHarness.Lib.SafeInteger

open Int

/-! ## Products -/

def fmul (a b : Int) : Int := roundInt (a * b)

theorem fmul_of_isSafe {a b : Int} (h : IsSafe (a * b)) : fmul a b = a * b := roundInt_of_isSafe h

theorem isSafe_fmul_iff (a b : Int) : IsSafe (fmul a b) ↔ IsSafe (a * b) := roundInt_isSafe_iff _

/-! ## Rounding a rational -/

def roundEven (x : ℚ) : Int := if x - ⌊x⌋ < 1 / 2 ∨ (x - ⌊x⌋ = 1 / 2 ∧ ⌊x⌋ % 2 = 0) then ⌊x⌋ else ⌊x⌋ + 1

theorem roundEven_intCast (n : Int) : roundEven n = n := by simp [roundEven]

theorem roundEven_near (x : ℚ) : x - 1 / 2 ≤ roundEven x ∧ roundEven x ≤ x + 1 / 2 := by
  have hle := floor_le x
  have hlt := lt_floor_add_one x
  unfold roundEven
  split
  · next h =>
    have hhalf : x - ⌊x⌋ ≤ 1 / 2 := by
      rcases h with h | ⟨h, -⟩
      · exact h.le
      · exact h.le
    exact ⟨by linarith, by linarith⟩
  · next h =>
    have hhalf : 1 / 2 ≤ x - ⌊x⌋ := by
      by_contra hlow
      exact h (Or.inl (not_le.mp hlow))
    push_cast
    exact ⟨by linarith, by linarith⟩

def lastPlace (x : ℚ) : ℚ := 2 ^ (Int.log 2 x - 52)

/-- The nearest double to a rational that is not negative, ties to even. -/
def roundQuotient (x : ℚ) : ℚ := roundEven (x / lastPlace x) * lastPlace x

theorem lastPlace_pos (x : ℚ) : 0 < lastPlace x := zpow_pos (by norm_num) _

theorem lastPlace_le {x : ℚ} (hx : 0 < x) : lastPlace x * 2 ^ 52 ≤ x := by
  have hlog : ((2 : ℕ) : ℚ) ^ log 2 x ≤ x := zpow_log_le_self (by norm_num) hx
  have hplace : lastPlace x * 2 ^ 52 = (2 : ℚ) ^ log 2 x := by
    rw [lastPlace, ← zpow_natCast, ← zpow_add₀ (by norm_num)]
    norm_num
  rw [hplace]
  exact_mod_cast hlog

/-- **The rounding error** is at most one part in `2^53`. -/
theorem roundQuotient_near {x : ℚ} (hx : 0 < x) :
    x - x / 2 ^ 53 ≤ roundQuotient x ∧ roundQuotient x ≤ x + x / 2 ^ 53 := by
  have hpos := lastPlace_pos x
  have hplace := lastPlace_le hx
  obtain ⟨hlow, hhigh⟩ := roundEven_near (x / lastPlace x)
  have hback : x / lastPlace x * lastPlace x = x := div_mul_cancel₀ x hpos.ne'
  have hlow' := mul_le_mul_of_nonneg_right hlow hpos.le
  have hhigh' := mul_le_mul_of_nonneg_right hhigh hpos.le
  rw [sub_mul, hback] at hlow'
  rw [add_mul, hback] at hhigh'
  rw [roundQuotient]
  exact ⟨by linarith, by linarith⟩

theorem roundQuotient_natCast {n : Nat} (hn : n < 2 ^ 53) : roundQuotient n = n := by
  have hpos := lastPlace_pos n
  have hlog : log 2 (n : ℚ) = Nat.log 2 n := log_natCast 2 n
  have hsmall : Nat.log 2 n ≤ 52 := by
    rcases Nat.eq_zero_or_pos n with rfl | hpos
    · simp
    · have := Nat.log_lt_of_lt_pow (by omega) hn
      omega
  obtain ⟨k, hk⟩ := Nat.exists_eq_add_of_le hsmall
  have hplace : lastPlace n = ((2 : ℚ) ^ k)⁻¹ := by
    rw [lastPlace, hlog, ← zpow_natCast, ← zpow_neg]
    congr 1
    omega
  have hint : (n : ℚ) / lastPlace n = ((n * 2 ^ k : Int) : ℚ) := by
    rw [hplace, div_inv_eq_mul]
    push_cast
    ring
  rw [roundQuotient, hint, roundEven_intCast, ← hint]
  exact div_mul_cancel₀ _ hpos.ne'

/-! ## Floored quotients -/

/-- `a / b` in double arithmetic, for integers `0 ≤ a` and `0 < b`. -/
def fdiv (a b : Int) : ℚ := roundQuotient (a / b)

/-- **The floor of a rounded quotient is the floor of the quotient.** -/
theorem floor_fdiv {a b : Int} (ha : 0 ≤ a) (hb : 0 < b) (hsmall : a < 2 ^ 53) : ⌊fdiv a b⌋ = a / b := by
  have hbq : (0 : ℚ) < b := by exact_mod_cast hb
  have hdiv := mul_ediv_add_emod a b
  have hrem := emod_nonneg a hb.ne'
  have hlast := emod_lt_of_pos a hb
  have hquot : 0 ≤ a / b := ediv_nonneg ha hb.le
  rcases hrem.eq_or_lt with hexact | hover
  · -- the divisor divides: the quotient is an integer, and a double
    obtain ⟨n, hn⟩ := eq_ofNat_of_zero_le hquot
    have hle : a / b ≤ a := ediv_le_self b ha
    have hx : (a : ℚ) / b = (n : ℚ) := by
      rw [div_eq_iff hbq.ne']
      have hprod : a = n * b := by
        rw [← hn, mul_comm]
        omega
      exact_mod_cast hprod
    rw [fdiv, hx, roundQuotient_natCast (by omega), hn]
    exact floor_natCast n
  · -- the quotient lies `1 / b` inside its unit interval, and the error is less
    have hx : (0 : ℚ) < a / b := by
      have : (0 : ℚ) < a := by
        have : 0 < a := by
          rcases ha.eq_or_lt with h0 | h0
          · rw [← h0] at hover
            simp at hover
          · exact h0
        exact_mod_cast this
      positivity
    obtain ⟨hlow, hhigh⟩ := roundQuotient_near hx
    have herror : (a : ℚ) / b / 2 ^ 53 < 1 / b := by
      rw [div_div, div_lt_div_iff₀ (by positivity) hbq]
      have hcast : (a : ℚ) < 2 ^ 53 := by exact_mod_cast hsmall
      calc (a : ℚ) * b < 2 ^ 53 * b := mul_lt_mul_of_pos_right hcast hbq
        _ = 1 * (b * 2 ^ 53) := by ring
    have hbelow : ((a / b : Int) : ℚ) + 1 / b ≤ a / b := by
      rw [← sub_nonneg]
      have hge : (0 : ℚ) ≤ (a - (a / b : Int) * b - 1) / b := by
        apply div_nonneg _ hbq.le
        have hint : (0 : Int) ≤ a - a / b * b - 1 := by
          rw [mul_comm]
          omega
        exact_mod_cast hint
      calc (0 : ℚ) ≤ (a - (a / b : Int) * b - 1) / b := hge
        _ = a / b - (((a / b : Int) : ℚ) + 1 / b) := by field_simp; ring
    have habove : (a : ℚ) / b + 1 / b ≤ ((a / b : Int) : ℚ) + 1 := by
      rw [← sub_nonneg]
      have hge : (0 : ℚ) ≤ ((a / b : Int) * b + b - a - 1) / b := by
        apply div_nonneg _ hbq.le
        have hint : (0 : Int) ≤ a / b * b + b - a - 1 := by
          rw [mul_comm (a / b)]
          omega
        exact_mod_cast hint
      calc (0 : ℚ) ≤ ((a / b : Int) * b + b - a - 1) / b := hge
        _ = ((a / b : Int) : ℚ) + 1 - (a / b + 1 / b) := by field_simp; ring
    rw [fdiv, floor_eq_iff]
    exact ⟨by linarith, by linarith⟩

end CocoHarness.Lib.SafeInteger
