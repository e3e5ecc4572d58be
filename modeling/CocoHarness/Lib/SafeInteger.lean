/-
# CocoHarness.Lib.SafeInteger — integers as an IEEE 754 double holds them.

A double keeps 53 significant bits, so an integer sum or difference is exact up to `2^53` and is rounded to the
nearest representable integer, ties to even, above it.  `roundInt` is that rounding, and `roundInt_isSafe_iff` is the
fact such a test rests on.
-/
import Mathlib.Data.Nat.Log
import Mathlib.Tactic.NormNum
import Mathlib.Tactic.Positivity
import Mathlib.Tactic.Ring

namespace CocoHarness.Lib.SafeInteger

/-! ## The safe range -/

/-- `Number.isSafeInteger` on an integer: magnitude at most `2^53 - 1`. -/
def IsSafe (n : Int) : Prop := n.natAbs ≤ 9007199254740991

instance (n : Int) : Decidable (IsSafe n) := inferInstanceAs (Decidable (_ ≤ _))

variable {n : Nat}

theorem isSafe_ofNat_of_le {m : Nat} (h : IsSafe n) (hmn : m ≤ n) : IsSafe m := by simp only [IsSafe] at *; omega

/-! ## Rounding to the nearest double -/

/-- The nearest double, ties to even: above `2^53` the last `log2 n - 52` bits are rounded away. -/
def roundNat (n : Nat) : Nat :=
  if n ≤ 9007199254740992 then n
  else
    let ulp := 2 ^ (Nat.log 2 n - 52)
    let q := n / ulp
    let r := n % ulp
    if 2 * r < ulp ∨ (2 * r = ulp ∧ q % 2 = 0) then q * ulp else (q + 1) * ulp

def roundInt (n : Int) : Int := if n < 0 then -(roundNat n.natAbs : Int) else roundNat n.natAbs

theorem roundNat_of_le (h : n ≤ 9007199254740992) : roundNat n = n := by simp [roundNat, h]

theorem le_roundNat (h : 9007199254740992 ≤ n) : 9007199254740992 ≤ roundNat n := by
  unfold roundNat
  split
  · exact h
  · next hgt =>
    have hlog : 53 ≤ Nat.log 2 n := Nat.le_log_of_pow_le (by norm_num) (by norm_num; omega)
    have hpow : 2 ^ Nat.log 2 n ≤ n := Nat.pow_log_le_self 2 (by omega)
    obtain ⟨e, he⟩ := Nat.exists_eq_add_of_le hlog
    have hsplit : Nat.log 2 n - 52 = e + 1 := by omega
    have hq : 4503599627370496 ≤ n / 2 ^ (e + 1) := by
      rw [Nat.le_div_iff_mul_le (by positivity)]
      calc 4503599627370496 * 2 ^ (e + 1) = 2 ^ (53 + e) := by ring
        _ ≤ n := by rw [← he]; exact hpow
    have hulp : 2 ≤ 2 ^ (e + 1) := by rw [pow_succ]; have := Nat.one_le_two_pow (n := e); omega
    have hlow : 9007199254740992 ≤ n / 2 ^ (e + 1) * 2 ^ (e + 1) :=
      calc 9007199254740992 = 4503599627370496 * 2 := by norm_num
        _ ≤ n / 2 ^ (e + 1) * 2 ^ (e + 1) := Nat.mul_le_mul hq hulp
    rw [hsplit]
    dsimp only
    split
    · exact hlow
    · exact hlow.trans (Nat.mul_le_mul_right _ (Nat.le_succ _))

/-- Two past `2^53` is representable, so rounding never falls back to `2^53` from there on. -/
theorem lt_roundNat (h : 9007199254740994 ≤ n) : 9007199254740992 < roundNat n := by
  unfold roundNat
  rw [if_neg (by omega)]
  have hlog : 53 ≤ Nat.log 2 n := Nat.le_log_of_pow_le (by norm_num) (by norm_num; omega)
  have hpow : 2 ^ Nat.log 2 n ≤ n := Nat.pow_log_le_self 2 (by omega)
  obtain ⟨e, he⟩ := Nat.exists_eq_add_of_le hlog
  have hsplit : Nat.log 2 n - 52 = e + 1 := by omega
  have hlow : 9007199254740992 < n / 2 ^ (e + 1) * 2 ^ (e + 1) := by
    cases e with
    | zero => omega
    | succ e =>
      have hq : 4503599627370496 ≤ n / 2 ^ (e + 1 + 1) := by
        rw [Nat.le_div_iff_mul_le (by positivity)]
        calc 4503599627370496 * 2 ^ (e + 1 + 1) = 2 ^ (53 + (e + 1)) := by ring
          _ ≤ n := by rw [← he]; exact hpow
      have hulp : 4 ≤ 2 ^ (e + 1 + 1) := by rw [pow_succ, pow_succ]; have := Nat.one_le_two_pow (n := e); omega
      calc 9007199254740992 < 4503599627370496 * 4 := by norm_num
        _ ≤ n / 2 ^ (e + 1 + 1) * 2 ^ (e + 1 + 1) := Nat.mul_le_mul hq hulp
  rw [hsplit]
  dsimp only
  split
  · exact hlow
  · exact hlow.trans_le (Nat.mul_le_mul_right _ (Nat.le_succ _))

theorem roundInt_of_isSafe {n : Int} (h : IsSafe n) : roundInt n = n := by
  simp only [IsSafe] at h
  rw [roundInt, roundNat_of_le (by omega)]
  split <;> omega

/-- **The safe-integer test sees through rounding.** -/
theorem roundInt_isSafe_iff (n : Int) : IsSafe (roundInt n) ↔ IsSafe n := by
  refine ⟨fun h => ?_, fun h => by rwa [roundInt_of_isSafe h]⟩
  by_contra hn
  have hle : 9007199254740992 ≤ roundNat n.natAbs := le_roundNat (by simp only [IsSafe] at hn; omega)
  simp only [IsSafe, roundInt] at h
  split at h <;> omega

/-! ## Sums and differences of doubles -/

def fadd (a b : Int) : Int := roundInt (a + b)

def fsub (a b : Int) : Int := roundInt (a - b)

variable {a b : Int}

theorem fadd_of_isSafe (h : IsSafe (a + b)) : fadd a b = a + b := roundInt_of_isSafe h

theorem fsub_of_isSafe (h : IsSafe (a - b)) : fsub a b = a - b := roundInt_of_isSafe h

theorem fadd_succ_of_isSafe (h : IsSafe (a + b)) : fadd a (b + 1) = a + b + 1 := by
  simp only [IsSafe] at h
  rw [fadd, roundInt, roundNat_of_le (by omega)]
  split <;> omega

theorem fadd_one_of_isSafe (h : IsSafe a) : fadd a 1 = a + 1 := by
  simpa using fadd_succ_of_isSafe (a := a) (b := 0) (by simpa using h)

theorem fadd_fsub_cancel (hgap : IsSafe (b - a)) (hb : IsSafe b) : fadd a (fsub b a) = b := by
  have hexact : a + (b - a) = b := by omega
  rw [fsub_of_isSafe hgap, fadd_of_isSafe (by rwa [hexact]), hexact]

theorem isSafe_fadd_iff (a b : Int) : IsSafe (fadd a b) ↔ IsSafe (a + b) := roundInt_isSafe_iff _

theorem isSafe_fsub_iff (a b : Int) : IsSafe (fsub a b) ↔ IsSafe (a - b) := roundInt_isSafe_iff _

theorem fadd_of_isSafe_last {b k : Nat} (ha : 0 ≤ a) (h : IsSafe (fsub (fadd a b) 1))
    (hk : k < b) : fadd a k = a + k := by
  have hround : roundInt (a + b) ≤ 9007199254740992 := by
    rw [isSafe_fsub_iff, fadd] at h
    simp only [IsSafe] at h
    omega
  have hsum : a + b < 9007199254740994 := by
    by_contra hge
    have := lt_roundNat (n := (a + b).natAbs) (by omega)
    rw [roundInt, if_neg (by omega)] at hround
    omega
  rw [fadd, roundInt, roundNat_of_le (by omega)]
  split <;> omega

end CocoHarness.Lib.SafeInteger
