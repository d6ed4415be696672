import GarageConsole.Foundations.Text

/-! # Characters below U+0080

In UTF-8 a byte below 0x80 stands for the character of that number and for nothing else: decoding makes an
ASCII character of such a byte only, and encoding writes such a byte for an ASCII character only.
-/

namespace Foundations.Text

set_option autoImplicit false

theorem bytes_injective : Function.Injective bytes := by
  intro s t h
  have hbytes : ∀ u : String, u.toByteArray = (bytes u).toByteArray := by
    intro u
    conv_lhs => rw [← String.ofList_toList (s := u)]
    rfl
  rw [← String.toByteArray_inj, hbytes, hbytes, h]

/-- A byte of an encoded character is the character, or both are outside ASCII. -/
theorem mem_utf8EncodeChar {c : Char} {b : UInt8} (h : b ∈ String.utf8EncodeChar c) :
    b.toNat = c.toNat ∨ (128 ≤ b.toNat ∧ 128 ≤ c.toNat) := by
  have hc : c.val.toNat = c.toNat := rfl
  rw [String.utf8EncodeChar, hc] at h
  split_ifs at h with hone htwo hthree
  · rw [List.mem_singleton.mp h, UInt8.toNat_ofNat', Nat.mod_eq_of_lt (by omega)]
    exact .inl rfl
  all_goals
    right
    refine ⟨?_, by omega⟩
    simp only [List.mem_cons, List.not_mem_nil, or_false] at h
    rcases h with rfl | rfl | rfl | rfl <;> rw [UInt8.toNat_ofNat'] <;> omega

/-! ## Decoding -/

theorem toNat_ofNat (n : ℕ) : (Char.ofNat n).toNat = 0 ∨ (Char.ofNat n).toNat = n := by
  unfold Char.ofNat
  by_cases hvalid : n.isValidChar
  · rw [dif_pos hvalid]
    exact .inr rfl
  · rw [dif_neg hvalid]
    exact .inl rfl

theorem toNat_ofNat_of_lt {n : ℕ} (h : n < 128) : (Char.ofNat n).toNat = n := by
  have hvalid : n.isValidChar := .inl (by omega)
  unfold Char.ofNat
  rw [dif_pos hvalid]
  rfl

theorem secondByteRange_bounds {b₀ lo hi : UInt8} (h : secondByteRange b₀ = some (lo, hi)) :
    194 ≤ b₀.toNat ∧ b₀.toNat ≤ 244 ∧ hi.toNat ≤ 191 ∧ 128 ≤ lo.toNat ∧ (b₀.toNat ≠ 224 ∨ 160 ≤ lo.toNat) ∧
      (b₀.toNat ≠ 240 ∨ 144 ≤ lo.toNat) := by
  unfold secondByteRange at h
  simp only [Bool.and_eq_true, decide_eq_true_eq, UInt8.le_iff_toNat_le, ← UInt8.toNat_inj, UInt8.reduceToNat] at h
  split_ifs at h <;> (cases h; simp only [UInt8.reduceToNat]; omega)

/-- A character read from several bytes is not ASCII. -/
theorem decodeMultibyte_toNat {b₀ : UInt8} {bs rest : Bytes} {c : Char} (h : decodeMultibyte b₀ bs = some (c, rest)) :
    (c.toNat = 0 ∨ 128 ≤ c.toNat) ∧ rest <:+ bs := by
  have hofNat : ∀ n, 128 ≤ n → (Char.ofNat n).toNat = 0 ∨ 128 ≤ (Char.ofNat n).toNat := by
    intro n hn
    rcases toNat_ofNat n with h | h <;> omega
  unfold decodeMultibyte at h
  split at h
  · rename_i lo hi b₁ r₁ hrange
    have hb := secondByteRange_bounds hrange
    split at h
    · cases h
    · rename_i hin
      simp only [UInt8.le_iff_toNat_le, Classical.not_not] at hin
      simp only [UInt8.lt_iff_toNat_lt, UInt8.reduceToNat, payload] at h
      split at h
      · cases h
        exact ⟨hofNat _ (by omega), List.suffix_cons _ _⟩
      · split at h
        · rename_i b₂ r₂
          split at h
          · cases h
          · split at h
            · cases h
              exact ⟨hofNat _ (by omega), ⟨[b₁, b₂], rfl⟩⟩
            · split at h
              · rename_i b₃ r₃
                split at h
                · cases h
                · cases h
                  exact ⟨hofNat _ (by omega), ⟨[b₁, b₂, b₃], rfl⟩⟩
              · cases h
        · cases h
  · cases h

theorem decodeRune_toNat {bs rest : Bytes} {c : Char} (h : decodeRune bs = some (c, rest)) :
    (c.toNat = 0 ∨ 128 ≤ c.toNat ∨ ∃ b ∈ bs, b.toNat = c.toNat) ∧ rest <:+ bs := by
  cases bs with
  | nil => cases h
  | cons b₀ bs =>
    rw [decodeRune] at h
    split_ifs at h with hascii
    · cases h
      have hlt : b₀.toNat < 128 := UInt8.lt_iff_toNat_lt.mp hascii
      exact ⟨.inr (.inr ⟨b₀, List.mem_cons_self, (toNat_ofNat_of_lt hlt).symm⟩), List.suffix_cons _ _⟩
    · cases hmulti : decodeMultibyte b₀ bs with
      | none =>
        rw [hmulti] at h
        cases h
        exact ⟨.inr (.inl (by decide)), List.suffix_cons _ _⟩
      | some out =>
        rw [hmulti] at h
        cases h
        obtain ⟨hc, hrest⟩ := decodeMultibyte_toNat hmulti
        exact ⟨hc.imp_right .inl, hrest.trans (List.suffix_cons _ _)⟩

/-- An ASCII character of the text is one of its bytes. -/
theorem mem_decodeRunes {c : Char} : ∀ {fuel : ℕ} {bs : Bytes}, c ∈ decodeRunes fuel bs →
    c.toNat = 0 ∨ 128 ≤ c.toNat ∨ ∃ b ∈ bs, b.toNat = c.toNat
  | 0, _, h => absurd h List.not_mem_nil
  | fuel + 1, bs, h => by
      rw [decodeRunes] at h
      split at h
      · exact absurd h List.not_mem_nil
      · rename_i d rest hrune
        obtain ⟨hd, hrest⟩ := decodeRune_toNat hrune
        rcases List.mem_cons.mp h with rfl | h
        · exact hd
        · rcases mem_decodeRunes h with hzero | hlarge | ⟨b, hb, heq⟩
          · exact .inl hzero
          · exact .inr (.inl hlarge)
          · exact .inr (.inr ⟨b, hrest.subset hb, heq⟩)

/-! ## Decimals -/

/-- `%d` -/
def decimal (n : ℕ) : Bytes := bytes (toString n)

theorem decimal_injective : Function.Injective decimal := by
  intro m n h
  have hdigits : Nat.toDigits 10 m = Nat.toDigits 10 n := by
    have hlist := congrArg String.toList (bytes_injective h)
    rwa [Nat.toString_eq_repr, Nat.toString_eq_repr, Nat.toList_repr, Nat.toList_repr] at hlist
  calc m = Nat.ofDigitChars 10 (Nat.toDigits 10 m) 0 := Nat.ofDigitChars_ten_toDigits.symm
    _ = Nat.ofDigitChars 10 (Nat.toDigits 10 n) 0 := by rw [hdigits]
    _ = n := Nat.ofDigitChars_ten_toDigits

theorem digit_of_mem_decimal {n : ℕ} {b : UInt8} (h : b ∈ decimal n) : 48 ≤ b.toNat ∧ b.toNat ≤ 57 := by
  obtain ⟨c, hc, hb⟩ := List.mem_flatMap.mp h
  rw [Nat.toString_eq_repr, Nat.toList_repr] at hc
  have hdigit := Nat.isDigit_of_mem_toDigits (by decide) (by decide) hc
  rw [Char.isDigit, Bool.and_eq_true, decide_eq_true_eq, decide_eq_true_eq] at hdigit
  have hlow : 48 ≤ c.toNat := UInt32.le_iff_toNat_le.mp hdigit.1
  have hhigh : c.toNat ≤ 57 := UInt32.le_iff_toNat_le.mp hdigit.2
  rcases mem_utf8EncodeChar hb with heq | ⟨-, hlarge⟩ <;> omega

end Foundations.Text
