import GarageConsole.Foundations.Double
import GarageConsole.Foundations.Utf16

/-! # Numbers and their text

A finite double is a multiple of 2^-1074, and sizes of numbers are counted in that unit here. `toNearest` rounds
the result of an operation, `mathRound` is to a whole number. `numberOf` is what a text says as a number and `text` what
a number prints as, the fewest digits that say it.
-/

namespace Foundations.Numbers

open Double Utf16

set_option autoImplicit false

def one : ℕ := Nat.pow 2 1074

/-- 2^1024, from where on it is `Infinity`. -/
def limit : ℕ := Nat.pow 2 2098

structure Magnitude where
  units : ℕ
  exact : ulp units ∣ units
  lt : units < limit
  deriving DecidableEq

inductive Number
  | nan
  | infinite (negative : Bool)
  | finite (negative : Bool) (size : Magnitude)
  deriving DecidableEq

/-! ## Rounding -/

/-- The double nearest to `p / q` units. -/
def toNearest (p q : ℕ) : ℕ := nearest (ulp (p / q) * q) p / q

theorem exists_nearest {unit n : ℕ} : ∃ j, nearest unit n = j * unit := by
  unfold nearest
  split_ifs
  · exact ⟨_, rfl⟩
  · exact ⟨_, rfl⟩
  · exact ⟨_, rfl⟩

theorem ulp_dvd_toNearest (p q : ℕ) : ulp (toNearest p q) ∣ toNearest p q := by
  rcases Nat.eq_zero_or_pos q with rfl | hq
  · simp [toNearest]
  · obtain ⟨j, hj⟩ := @exists_nearest (ulp (p / q) * q) p
    have hunit : 0 < ulp (p / q) * q := Nat.mul_pos (ulp_pos _) hq
    have hle : j ≤ 2 ^ 53 := by
      have hp : p ≤ 2 ^ 53 * (ulp (p / q) * q) := by
        have hdiv : p / q < 2 ^ (Nat.log 2 (p / q) + 1) := Nat.lt_pow_succ_log_self (by decide) _
        have hpow : 2 ^ (Nat.log 2 (p / q) + 1) ≤ 2 ^ 53 * ulp (p / q) := by
          rw [ulp, ← Nat.pow_add]
          exact Nat.pow_le_pow_right (by decide) (by omega)
        rw [← Nat.mul_assoc]
        exact ((Nat.div_lt_iff_lt_mul hq).mp (hdiv.trans_le hpow)).le
      exact Nat.le_of_mul_le_mul_right (hj ▸ nearest_le hunit hp) hunit
    rw [toNearest, hj, ← Nat.mul_assoc, Nat.mul_div_cancel _ hq]
    exact ulp_dvd hle

/-- A quotient that is a double is not rounded. -/
theorem toNearest_mul {k q : ℕ} (h : ulp k ∣ k) (hq : 0 < q) : toNearest (k * q) q = k := by
  rw [toNearest, Nat.mul_div_cancel k hq, nearest_of_dvd (Nat.mul_pos (ulp_pos k) hq) (Nat.mul_dvd_mul_right h q),
    Nat.mul_div_cancel k hq]

theorem toNearest_of_dvd {k : ℕ} (h : ulp k ∣ k) : toNearest k 1 = k := by
  have hread := toNearest_mul h Nat.one_pos
  rwa [Nat.mul_one] at hread

/-- A double times a power of two is a double. -/
theorem ulp_dvd_mul {k : ℕ} (h : ulp k ∣ k) (e : ℕ) : ulp (k * 2 ^ e) ∣ k * 2 ^ e := by
  have hj : k / ulp k ≤ 2 ^ 53 := by
    have hlt : k < 2 ^ (Nat.log 2 k + 1) := Nat.lt_pow_succ_log_self (by decide) k
    refine Nat.div_le_of_le_mul ?_
    rw [ulp, ← Nat.pow_add]
    exact hlt.le.trans (Nat.pow_le_pow_right (by decide) (by omega))
  have hk : k * 2 ^ e = k / ulp k * 2 ^ (Nat.log 2 k - 52 + e) := by
    rw [Nat.pow_add, ← Nat.mul_assoc]
    congr 1
    exact (Nat.div_mul_cancel h).symm
  rw [hk]
  exact ulp_dvd hj

theorem log_mul_two_pow {m : ℕ} (hm : m ≠ 0) (e : ℕ) : Nat.log 2 (m * 2 ^ e) = Nat.log 2 m + e := by
  induction e with
  | zero => rw [Nat.pow_zero, Nat.mul_one, Nat.add_zero]
  | succ e ih =>
    have hne : m * 2 ^ e ≠ 0 := Nat.mul_ne_zero hm (Nat.two_pow_pos e).ne'
    rw [Nat.pow_succ, ← Nat.mul_assoc, Nat.log_mul_base (by decide) hne, ih, Nat.add_assoc]

/-- A double that is a multiple of a power of two, divided by it, is a double. -/
theorem ulp_dvd_of_mul {m e : ℕ} (h : ulp (m * 2 ^ e) ∣ m * 2 ^ e) : ulp m ∣ m := by
  obtain rfl | hm := Nat.eq_zero_or_pos m
  · exact Nat.dvd_zero _
  rw [ulp, log_mul_two_pow hm.ne'] at h
  by_cases hlog : 52 ≤ Nat.log 2 m
  · rw [show Nat.log 2 m + e - 52 = Nat.log 2 m - 52 + e by omega, Nat.pow_add] at h
    exact Nat.dvd_of_mul_dvd_mul_right (Nat.two_pow_pos e) h
  · rw [ulp, show Nat.log 2 m - 52 = 0 by omega]
    exact Nat.one_dvd m

/-- `Math.round`, of a number that is not negative. -/
def mathRound (k : ℕ) : ℕ := (2 * k + one) / (2 * one)

def times (k n : ℕ) : ℕ := toNearest (k * n) 1

/-- `n / d`, of whole numbers. -/
def quotient (n d : ℕ) : ℕ := toNearest (n * one) d

theorem pos_one : 0 < one := by decide +kernel

/-- A number is rounded to the whole number next to it. -/
theorem mathRound_bounds (k : ℕ) :
    2 * (mathRound k * one) ≤ 2 * k + one ∧ 2 * k + one < 2 * ((mathRound k + 1) * one) := by
  have hdm := Nat.div_add_mod' (2 * k + one) (2 * one)
  have hmod := Nat.mod_lt (2 * k + one) (Nat.mul_pos Nat.two_pos pos_one)
  have hdouble : mathRound k * (2 * one) = 2 * (mathRound k * one) := Nat.mul_left_comm _ 2 _
  have hsucc : (mathRound k + 1) * one = mathRound k * one + one := Nat.succ_mul _ _
  rw [← mathRound, hdouble] at hdm
  rw [hsucc]
  omega

theorem mathRound_whole (n : ℕ) : mathRound (n * one) = n := by
  have hpos := pos_one
  have htwice : 2 * (n * one) + one = one + n * (2 * one) := by rw [Nat.mul_left_comm, Nat.add_comm]
  rw [mathRound, htwice, Nat.add_mul_div_right _ _ (by omega), Nat.div_eq_of_lt (by omega), Nat.zero_add]

theorem ulp_dvd_whole {n : ℕ} (h : ulp n ∣ n) : ulp (n * one) ∣ n * one := ulp_dvd_mul h 1074

theorem quotient_mul {m e : ℕ} (h : ulp (m * 2 ^ e) ∣ m * 2 ^ e) : quotient (m * 2 ^ e) (2 ^ e) = m * one := by
  rw [quotient, Nat.mul_right_comm]
  exact toNearest_mul (ulp_dvd_whole (ulp_dvd_of_mul h)) (Nat.two_pow_pos e)

theorem times_two_pow {k : ℕ} (h : ulp k ∣ k) (e : ℕ) : times k (2 ^ e) = k * 2 ^ e :=
  toNearest_of_dvd (ulp_dvd_mul h e)

theorem ofNat_eq_toNearest (n : ℕ) : ofNat n = toNearest n 1 := by
  rw [toNearest, Nat.div_one, Nat.div_one, Nat.mul_one, ofNat]

theorem ofNat_two_pow (e : ℕ) : ofNat (2 ^ e) = 2 ^ e := by
  rw [← Nat.one_mul (2 ^ e)]
  exact ofNat_mul_pow Nat.one_le_two_pow e

def ofRatio (negative : Bool) (p q : ℕ) : Number :=
  if h : toNearest p q < limit then .finite negative ⟨toNearest p q, ulp_dvd_toNearest p q, h⟩
  else .infinite negative

/-- `s * 10^e` -/
def decimal (negative : Bool) (s : ℕ) (e : ℤ) : Number :=
  ofRatio negative (s * 10 ^ e.toNat * one) (10 ^ (-e).toNat)

/-! ## Reading a number -/

/-- The value of a digit in any base up to 16. -/
def digitValue (u : UInt16) : Option ℕ :=
  let code := u.toNat
  if 0x30 ≤ code && code ≤ 0x39 then some (code - 0x30)
  else if 0x41 ≤ code && code ≤ 0x46 then some (code - 0x41 + 10)
  else if 0x61 ≤ code && code ≤ 0x66 then some (code - 0x61 + 10)
  else none

def isDigitOf (base : ℕ) (u : UInt16) : Bool := (digitValue u).any (· < base)

def readDigits (base : ℕ) (digits : Units) : ℕ :=
  digits.foldl (fun n u => n * base + (digitValue u).getD 0) 0

/-- The sign that may come first, and what comes after it. -/
def readSign : Units → Bool × Units
  | [] => (false, [])
  | u :: rest => if u = 0x2B then (false, rest) else if u = 0x2D then (true, rest) else (false, u :: rest)

/-- The exponent at the end of a number: nothing, or `e`, a sign and digits. -/
def readExponent : Units → Option ℤ
  | [] => some 0
  | u :: rest =>
    let (negative, digits) := readSign rest
    if (u = 0x65 || u = 0x45) && digits ≠ [] && digits.all (isDigitOf 10) then
      some (if negative then -(readDigits 10 digits : ℤ) else readDigits 10 digits)
    else none

/-- Digits with a point among them or at an end, and an exponent. -/
def readDecimal (negative : Bool) (s : Units) : Number :=
  let whole := s.takeWhile (isDigitOf 10)
  let rest := s.dropWhile (isDigitOf 10)
  let afterPoint := if rest.head? = some 0x2E then rest.tail else []
  let fraction := afterPoint.takeWhile (isDigitOf 10)
  let exponent := if rest.head? = some 0x2E then afterPoint.dropWhile (isDigitOf 10) else rest
  match readExponent exponent with
  | some e =>
    if whole ++ fraction = [] then .nan
    else decimal negative (readDigits 10 (whole ++ fraction)) (e - fraction.length)
  | none => .nan

/-- `0b`, `0o` and `0x`, in either case. -/
def basePrefix : Units → Option (ℕ × Units)
  | 0x30 :: u :: digits =>
    if u = 0x62 || u = 0x42 then some (2, digits)
    else if u = 0x6F || u = 0x4F then some (8, digits)
    else if u = 0x78 || u = 0x58 then some (16, digits)
    else none
  | _ => none

/-- `Number(s)` -/
def numberOf (s : Units) : Number :=
  let literal := trim s
  if literal = [] then decimal false 0 0
  else match basePrefix literal with
  | some (base, digits) =>
    if digits ≠ [] && digits.all (isDigitOf base) then decimal false (readDigits base digits) 0 else .nan
  | none =>
    let (negative, rest) := readSign literal
    if rest = utf16 "Infinity" then .infinite negative else readDecimal negative rest

/-! ## Printing a number -/

/-- `s` and `e` so that `s * 10^e` reads as the number, with `s` the nearest for the largest such `e`. -/
def shortest (k : ℕ) : ℕ × ℤ :=
  let top := Nat.log 10 (k / one) + 1
  let candidates := (List.range (top + 325)).map fun i =>
    let e : ℤ := top - i
    let unit := one * 10 ^ e.toNat
    (nearest unit (k * 10 ^ (-e).toNat) / unit, e)
  let reads candidate := toNearest (candidate.1 * 10 ^ candidate.2.toNat * one) (10 ^ (-candidate.2).toNat) = k
  (candidates.find? fun candidate => reads candidate).getD (k * 5 ^ 1074, -1074)

/-- How a positive number is written with the digits of `s`, with `n` of them before the point. -/
def layOut (digits : List Char) (n : ℤ) : List Char :=
  if digits.length ≤ n && n ≤ 21 then digits ++ List.replicate (n.toNat - digits.length) '0'
  else if 0 < n && n ≤ 21 then digits.take n.toNat ++ '.' :: digits.drop n.toNat
  else if -6 < n && n ≤ 0 then '0' :: '.' :: (List.replicate (-n).toNat '0' ++ digits)
  else
    let point := if digits.length = 1 then [] else ['.']
    digits.take 1 ++ point ++ digits.drop 1 ++
      'e' :: (if 0 < n then '+' else '-') :: Nat.toDigits 10 (n - 1).natAbs

/-- `String(x)`, of a finite number that is not negative. -/
def text (k : ℕ) : Units :=
  if k = 0 then utf16 "0"
  else
    let (s, e) := shortest k
    let digits := Nat.toDigits 10 s
    encode (layOut digits (e + digits.length))

theorem mem_layOut {digits : List Char} {c : Char} (hc : digits.head? = some c) (n : ℤ) : c ∈ layOut digits n := by
  obtain ⟨rest, rfl⟩ := List.head?_eq_some_iff.mp hc
  unfold layOut
  split
  · simp
  split
  · rw [List.mem_append, List.mem_cons]
    have hmem : c ∈ (c :: rest).take n.toNat ++ (c :: rest).drop n.toNat := by
      rw [List.take_append_drop]
      exact List.mem_cons_self
    rw [List.mem_append] at hmem
    exact hmem.imp_right .inr
  split
  · simp
  · dsimp only
    rw [List.take_succ_cons, List.append_assoc, List.append_assoc, List.cons_append]
    exact List.mem_cons_self

theorem isSpace_digit {u : UInt16} (hlow : 0x30 ≤ u.toNat) (hhigh : u.toNat ≤ 0x39) : isSpace u = false := by
  rw [← Bool.not_eq_true]
  intro hspace
  simp only [isSpace, List.mem_cons, List.not_mem_nil, or_false, decide_eq_true_eq, Bool.or_eq_true,
    Bool.and_eq_true] at hspace
  omega

/-- A number never prints as white space. -/
theorem trim_text_ne_nil (k : ℕ) : trim (text k) ≠ [] := by
  suffices h : ∃ u ∈ text k, isSpace u = false by
    obtain ⟨u, hu, hspace⟩ := h
    rw [Ne, trim_eq_nil]
    intro hall
    rw [hall u hu] at hspace
    exact absurd hspace (by decide)
  unfold text
  split
  · exact ⟨0x30, by decide, by decide⟩
  · dsimp only
    cases hdigits : Nat.toDigits 10 (shortest k).1 with
    | nil => exact absurd hdigits Nat.toDigits_ne_nil
    | cons c rest =>
      have hdigit : c.isDigit = true :=
        Nat.isDigit_of_mem_toDigits (by decide) (by decide) (hdigits ▸ List.mem_cons_self)
      rw [Char.isDigit, Bool.and_eq_true, decide_eq_true_eq, decide_eq_true_eq] at hdigit
      have hcode : 0x30 ≤ c.toNat ∧ c.toNat ≤ 0x39 := hdigit
      have hu := toNat_ofNat (show c.toNat < 0x10000 by omega)
      refine ⟨UInt16.ofNat c.toNat, mem_encode.mpr ⟨c, mem_layOut rfl _, ?_⟩, ?_⟩
      · rw [encodeChar, if_pos (by omega)]
        exact List.mem_singleton_self _
      · exact isSpace_digit (by rw [hu]; exact hcode.1) (by rw [hu]; exact hcode.2)

end Foundations.Numbers
