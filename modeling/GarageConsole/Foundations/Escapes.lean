import GarageConsole.Foundations.Url

/-! # Percent-encoding

An encoder is given by the bytes it keeps; every other byte becomes `%XX`. As long as it does not keep `%`
itself, unescaping reads back what was encoded, whatever follows.
-/

namespace Foundations.Url

open Text

set_option autoImplicit false

def upperDigit (n : UInt8) : UInt8 := if n < 10 then 0x30 + n else 0x41 + (n - 10)

def percentByte (b : UInt8) : Bytes := [percent, upperDigit (b / 16), upperDigit (b % 16)]

def percentEncode (kept : UInt8 → Bool) (s : Bytes) : Bytes := s.flatMap fun b => if kept b then [b] else percentByte b

/-- Kept bytes and `%XX` escapes, nothing else. -/
inductive Encoded (kept : UInt8 → Bool) : Bytes → Prop where
  | nil : Encoded kept []
  | kept {b : UInt8} {s : Bytes} : kept b = true → Encoded kept s → Encoded kept (b :: s)
  | escape {h l : UInt8} {s : Bytes} : (fromHex h).isSome → (fromHex l).isSome → Encoded kept s →
      Encoded kept (percent :: h :: l :: s)

theorem fromHex_upperDigit {n : UInt8} (h : n < 16) : fromHex (upperDigit n) = some n := by
  have hall : ∀ k : Fin 16, fromHex (upperDigit (UInt8.ofNat k)) = some (UInt8.ofNat k) := by decide
  have hn := hall ⟨n.toNat, UInt8.lt_iff_toNat_lt.mp h⟩
  rwa [UInt8.ofNat_toNat] at hn

section

variable {kept : UInt8 → Bool}

@[simp] theorem percentEncode_nil : percentEncode kept [] = [] := rfl

theorem percentEncode_cons (b : UInt8) (s : Bytes) :
    percentEncode kept (b :: s) = (if kept b then [b] else percentByte b) ++ percentEncode kept s := List.flatMap_cons

theorem percentEncode_append (s t : Bytes) :
    percentEncode kept (s ++ t) = percentEncode kept s ++ percentEncode kept t :=
  List.flatMap_append

theorem unescape_percentByte (b : UInt8) (rest : Bytes) :
    unescape (percentByte b ++ rest) = (unescape rest).map (b :: ·) := by
  obtain ⟨hhigh, hlow⟩ := halves_lt b
  have hread := unescape_escape (fromHex_upperDigit hhigh) (fromHex_upperDigit hlow) rest
  rwa [halves_eq] at hread

theorem unescape_percentEncode_append (hpercent : kept percent = false) (s rest : Bytes) :
    unescape (percentEncode kept s ++ rest) = (unescape rest).map (s ++ ·) := by
  induction s with
  | nil => simp
  | cons b s ih =>
    rw [percentEncode_cons, List.append_assoc]
    split_ifs with hkept
    · have hne : b ≠ percent := by
        rintro rfl
        rw [hpercent] at hkept
        cases hkept
      rw [List.singleton_append, unescape_cons_of_ne hne, ih, Option.map_map]
      rfl
    · rw [unescape_percentByte, ih, Option.map_map]
      rfl

theorem unescape_percentEncode (hpercent : kept percent = false) (s : Bytes) :
    unescape (percentEncode kept s) = some s := by
  have h := unescape_percentEncode_append hpercent s []
  rwa [List.append_nil, unescape_nil, Option.map_some, List.append_nil] at h

theorem encoded_percentEncode (s : Bytes) : Encoded kept (percentEncode kept s) := by
  induction s with
  | nil => exact .nil
  | cons b s ih =>
    rw [percentEncode_cons]
    split_ifs with hkept
    · exact .kept hkept ih
    · obtain ⟨hhigh, hlow⟩ := halves_lt b
      exact .escape (by rw [fromHex_upperDigit hhigh]; rfl) (by rw [fromHex_upperDigit hlow]; rfl) ih

theorem percentEncode_kept {s : Bytes} (h : s.all kept = true) : percentEncode kept s = s := by
  induction s with
  | nil => rfl
  | cons b s ih =>
    rw [List.all_cons, Bool.and_eq_true] at h
    rw [percentEncode_cons, if_pos h.1, ih h.2]
    rfl

theorem not_mem_percentByte {c : UInt8} (hc : Apart c) (b : UInt8) : c ∉ percentByte b := by
  obtain ⟨hhigh, hlow⟩ := halves_lt b
  have hdigit : ∀ n : UInt8, n < 16 → c ≠ upperDigit n := by
    intro n hn heq
    have hread := fromHex_upperDigit hn
    rw [← heq, hc.2] at hread
    cases hread
  intro hmem
  rcases List.mem_cons.mp hmem with hpercent | hmem
  · exact hc.1 hpercent
  · rcases List.mem_pair.mp hmem with hd | hd
    · exact hdigit _ hhigh hd
    · exact hdigit _ hlow hd

/-- A byte that is no part of an escape is in the encoding only if it was there before and is kept. -/
theorem mem_percentEncode {c : UInt8} (hc : Apart c) {s : Bytes} :
    c ∈ percentEncode kept s ↔ c ∈ s ∧ kept c = true := by
  rw [percentEncode, List.mem_flatMap]
  constructor
  · rintro ⟨b, hb, hmem⟩
    split_ifs at hmem with hkept
    · obtain rfl := List.mem_singleton.mp hmem
      exact ⟨hb, hkept⟩
    · exact absurd hmem (not_mem_percentByte hc b)
  · rintro ⟨hmem, hkept⟩
    exact ⟨c, hmem, by rw [if_pos hkept]; exact List.mem_singleton_self c⟩

end

example : percentEncode isUnreserved (bytes "a b/é") = bytes "a%20b%2F%C3%A9" := by decide

end Foundations.Url
