import Mathlib.Data.Int.Notation
import Mathlib.Data.Nat.Log
import Mathlib.Tactic.Common
import Mathlib.Algebra.Order.Ring.Nat

/-! # Integers as double-precision numbers

`ofInt n` is the value of the double nearest to the integer `n`, the even one of two equally near
ones: what a reader that keeps every number in a double makes of an integer literal. It keeps the order.
-/

namespace Foundations.Double

set_option autoImplicit false

/-- The multiple of `unit` nearest to `n`, the even multiple of two. -/
def nearest (unit n : ℕ) : ℕ :=
  if 2 * (n % unit) < unit then n / unit * unit
  else if unit < 2 * (n % unit) then (n / unit + 1) * unit
  else (n / unit + n / unit % 2) * unit

/-- The distance of neighbouring doubles at the magnitude of `n`, where it is at least one. -/
def ulp (n : ℕ) : ℕ := 2 ^ (Nat.log 2 n - 52)

def ofNat (n : ℕ) : ℕ := nearest (ulp n) n

def ofInt (n : ℤ) : ℤ := if n < 0 then -(ofNat n.natAbs : ℤ) else ofNat n.natAbs

theorem nearest_le {unit n k : ℕ} (hunit : 0 < unit) (h : n ≤ k * unit) : nearest unit n ≤ k * unit := by
  have hdm := Nat.div_add_mod' n unit
  have hmod := Nat.mod_lt n hunit
  have hq : n / unit < k ∨ n % unit = 0 ∧ n / unit ≤ k := by
    by_cases hz : n % unit = 0
    · exact .inr ⟨hz, Nat.le_of_mul_le_mul_right (by omega) hunit⟩
    · exact .inl (Nat.lt_of_mul_lt_mul_right (a := unit) (by omega))
  have hceil : (n / unit + 1) * unit ≤ k * unit ∨ n % unit = 0 := by
    rcases hq with hlt | ⟨hz, -⟩
    · exact .inl (Nat.mul_le_mul_right unit hlt)
    · exact .inr hz
  have hpar : n / unit % 2 ≤ 1 := by omega
  unfold nearest
  split
  · omega
  · split
    · omega
    · have : (n / unit + n / unit % 2) * unit ≤ (n / unit + 1) * unit :=
        Nat.mul_le_mul_right unit (by omega)
      omega

theorem le_nearest {unit n k : ℕ} (hunit : 0 < unit) (h : k * unit ≤ n) : k * unit ≤ nearest unit n := by
  have hq : k ≤ n / unit := (Nat.le_div_iff_mul_le hunit).mpr h
  unfold nearest
  split
  · exact Nat.mul_le_mul_right unit hq
  · split
    · exact Nat.mul_le_mul_right unit (by omega)
    · exact Nat.mul_le_mul_right unit (by omega)

theorem nearest_mono {unit m n : ℕ} (hunit : 0 < unit) (h : m ≤ n) : nearest unit m ≤ nearest unit n := by
  have hdiv : m / unit ≤ n / unit := Nat.div_le_div_right h
  rcases Nat.lt_or_eq_of_le hdiv with hlt | heq
  · -- a whole multiple of the unit lies between them
    have h₁ : m ≤ n / unit * unit := by
      have := Nat.div_add_mod' m unit
      have := Nat.mod_lt m hunit
      have : (m / unit + 1) * unit ≤ n / unit * unit := Nat.mul_le_mul_right unit hlt
      have : (m / unit + 1) * unit = m / unit * unit + unit := Nat.succ_mul _ _
      omega
    exact (nearest_le hunit h₁).trans (le_nearest hunit (Nat.div_mul_le_self n unit))
  · have hmod : m % unit ≤ n % unit := by
      have hm := Nat.div_add_mod' m unit
      have hn := Nat.div_add_mod' n unit
      rw [heq] at hm
      omega
    have hup : (n / unit + n / unit % 2) * unit ≤ (n / unit + 1) * unit :=
      Nat.mul_le_mul_right unit (by omega)
    have hlow : n / unit * unit ≤ (n / unit + n / unit % 2) * unit :=
      Nat.mul_le_mul_right unit (by omega)
    unfold nearest
    rw [heq]
    split_ifs <;> omega

theorem ulp_pos (n : ℕ) : 0 < ulp n := Nat.two_pow_pos _

theorem ofNat_mono {m n : ℕ} (h : m ≤ n) : ofNat m ≤ ofNat n := by
  have hlog : Nat.log 2 m ≤ Nat.log 2 n := Nat.log_mono_right h
  unfold ofNat
  by_cases hulp : Nat.log 2 n - 52 = Nat.log 2 m - 52
  · rw [show ulp m = ulp n by rw [ulp, ulp, hulp]]
    exact nearest_mono (ulp_pos n) h
  · -- the next power of two lies between them and is a multiple of both units
    have hm : m ≤ 2 ^ (53 - (52 - Nat.log 2 m)) * ulp m := by
      have hlt : m < 2 ^ (Nat.log 2 m + 1) := Nat.lt_pow_succ_log_self (by omega) m
      rw [ulp, ← Nat.pow_add]
      have : Nat.log 2 m + 1 ≤ 53 - (52 - Nat.log 2 m) + (Nat.log 2 m - 52) := by omega
      exact hlt.le.trans (Nat.pow_le_pow_right (by omega) this)
    have hn : 2 ^ 52 * ulp n ≤ n := by
      have hne : n ≠ 0 := by
        intro hzero
        obtain rfl : m = 0 := by omega
        exact hulp (by rw [hzero])
      rw [ulp, ← Nat.pow_add, show 52 + (Nat.log 2 n - 52) = Nat.log 2 n by omega]
      exact Nat.pow_log_le_self 2 hne
    have hbetween : 2 ^ (53 - (52 - Nat.log 2 m)) * ulp m ≤ 2 ^ 52 * ulp n := by
      rw [ulp, ulp, ← Nat.pow_add, ← Nat.pow_add]
      exact Nat.pow_le_pow_right (by omega) (by omega)
    exact (nearest_le (ulp_pos m) hm).trans (hbetween.trans (le_nearest (ulp_pos n) hn))

theorem ofInt_mono {m n : ℤ} (h : m ≤ n) : ofInt m ≤ ofInt n := by
  unfold ofInt
  by_cases hm : m < 0
  · rw [if_pos hm]
    by_cases hn : n < 0
    · rw [if_pos hn]
      have := ofNat_mono (show n.natAbs ≤ m.natAbs by omega)
      omega
    · rw [if_neg hn]
      omega
  · rw [if_neg hm, if_neg (by omega : ¬n < 0)]
    have := ofNat_mono (show m.natAbs ≤ n.natAbs by omega)
    omega

theorem nearest_of_dvd {unit n : ℕ} (hunit : 0 < unit) (h : unit ∣ n) : nearest unit n = n := by
  rw [nearest, Nat.mod_eq_zero_of_dvd h, if_pos (by simpa using hunit), Nat.div_mul_cancel h]

/-- A number with 53 digits is a double. -/
theorem ulp_dvd {j e : ℕ} (h : j ≤ 2 ^ 53) : ulp (j * 2 ^ e) ∣ j * 2 ^ e := by
  rcases Nat.eq_zero_or_pos j with rfl | hj
  · simp
  · have hlog : Nat.log 2 (j * 2 ^ e) = Nat.log 2 j + e := by
      induction e with
      | zero => simp
      | succ e ih =>
        have hne : j * 2 ^ e ≠ 0 := Nat.mul_ne_zero hj.ne' (Nat.two_pow_pos e).ne'
        rw [Nat.pow_succ, ← Nat.mul_assoc, Nat.log_mul_base (by decide) hne, ih, Nat.add_assoc]
    rcases Nat.lt_or_eq_of_le h with hlt | rfl
    · have hle : Nat.log 2 j ≤ 52 := Nat.lt_succ_iff.mp (Nat.log_lt_of_lt_pow hj.ne' hlt)
      exact Nat.dvd_mul_left_of_dvd (Nat.pow_dvd_pow 2 (by omega)) j
    · rw [ulp, ← Nat.pow_add]
      refine Nat.pow_dvd_pow 2 ?_
      rw [Nat.log_pow (by decide)]
      omega

theorem ofNat_mul_pow {j : ℕ} (h : j ≤ 2 ^ 53) (e : ℕ) : ofNat (j * 2 ^ e) = j * 2 ^ e :=
  nearest_of_dvd (ulp_pos _) (ulp_dvd h)

/-- How an integer below 10^21 prints: its digits, with as many trailing zeros as still read back as
the same double. -/
def digits (n : ℕ) : ℕ :=
  let shortened := (List.range 20).reverse.map fun zeros => (n + 10 ^ zeros / 2) / 10 ^ zeros * 10 ^ zeros
  (shortened.find? fun candidate => ofNat candidate = n).getD n

def text (n : ℤ) : String :=
  if n < 0 then "-" ++ toString (digits n.natAbs) else toString (digits n.natAbs)

example : ofInt 9007199254740993 = 9007199254740992 := by decide +kernel
example : text (ofInt 9223372036854775807) = "9223372036854776000" := by decide +kernel

end Foundations.Double
