import GarageConsole.Foundations.Ascii

/-! # Well-formed UTF-8

`decodeRune` reads back what `String.utf8EncodeChar` wrote, so the characters of a well-formed byte string
are unique. A well-formed string may be cut at an ASCII byte, and before any byte that continues no character.
-/

namespace Foundations.Text

set_option autoImplicit false

def encode (cs : List Char) : Bytes := cs.flatMap String.utf8EncodeChar

/-- The characters that a loop over the string meets. -/
def runes (bs : Bytes) : List Char := decodeRunes bs.length bs

def WellFormed (bs : Bytes) : Prop := ∃ cs, bs = encode cs

@[simp] theorem encode_nil : encode [] = [] := rfl

@[simp] theorem encode_cons (c : Char) (cs : List Char) : encode (c :: cs) = String.utf8EncodeChar c ++ encode cs := rfl

@[simp] theorem encode_append (cs ds : List Char) : encode (cs ++ ds) = encode cs ++ encode ds := List.flatMap_append

theorem wellFormed_bytes (s : String) : WellFormed (bytes s) := ⟨s.toList, rfl⟩

theorem WellFormed.append {as bs : Bytes} (ha : WellFormed as) (hb : WellFormed bs) : WellFormed (as ++ bs) := by
  obtain ⟨cs, rfl⟩ := ha
  obtain ⟨ds, rfl⟩ := hb
  exact ⟨cs ++ ds, (encode_append cs ds).symm⟩

/-! ## Reading a character back -/

theorem isContinuation_iff {b : UInt8} : isContinuation b = true ↔ 0x80 ≤ b.toNat ∧ b.toNat ≤ 0xBF := by
  rw [isContinuation, Bool.and_eq_true, decide_eq_true_eq, decide_eq_true_eq]
  exact Iff.rfl

theorem decodeRune_one {b₀ : UInt8} (h₀ : b₀.toNat < 0x80) (rest : Bytes) :
    decodeRune (b₀ :: rest) = some (Char.ofNat b₀.toNat, rest) := if_pos (UInt8.lt_iff_toNat_lt.mpr h₀)

/-- The second byte of a sequence rules out overlong forms, surrogates and what is above U+10FFFF. -/
structure SecondByte (b₀ b₁ : UInt8) : Prop where
  continues : 0x80 ≤ b₁.toNat ∧ b₁.toNat ≤ 0xBF
  shortest : (b₀.toNat = 0xE0 → 0xA0 ≤ b₁.toNat) ∧ (b₀.toNat = 0xF0 → 0x90 ≤ b₁.toNat)
  scalar : (b₀.toNat = 0xED → b₁.toNat ≤ 0x9F) ∧ (b₀.toNat = 0xF4 → b₁.toNat ≤ 0x8F)

theorem secondByteRange_of_secondByte {b₀ b₁ : UInt8} (hlow : 0xC2 ≤ b₀.toNat) (hhigh : b₀.toNat ≤ 0xF4)
    (h₁ : SecondByte b₀ b₁) : ∃ lo hi, secondByteRange b₀ = some (lo, hi) ∧ lo ≤ b₁ ∧ b₁ ≤ hi := by
  obtain ⟨hcont, hshort, hscalar⟩ := h₁
  unfold secondByteRange
  simp only [Bool.and_eq_true, decide_eq_true_eq, UInt8.le_iff_toNat_le, ← UInt8.toNat_inj, UInt8.reduceToNat]
  split_ifs <;>
    first
    | omega
    | refine ⟨_, _, rfl, ?_, ?_⟩ <;> simp only [UInt8.reduceToNat] <;> omega

theorem decodeRune_two {b₀ b₁ : UInt8} (hlow : 0xC2 ≤ b₀.toNat) (hhigh : b₀.toNat < 0xE0) (h₁ : SecondByte b₀ b₁)
    (rest : Bytes) :
    decodeRune (b₀ :: b₁ :: rest) = some (Char.ofNat (b₀.toNat % 32 * 64 + b₁.toNat % 64), rest) := by
  obtain ⟨lo, hi, hrange, hlo, hhi⟩ := secondByteRange_of_secondByte hlow (by omega) h₁
  have hascii : ¬b₀ < 0x80 := fun h => absurd (UInt8.lt_iff_toNat_lt.mp h) (by simp; omega)
  have htwo : b₀ < 0xE0 := UInt8.lt_iff_toNat_lt.mpr hhigh
  rw [decodeRune, if_neg hascii]
  unfold decodeMultibyte
  simp only [hrange, hlo, hhi, and_self, not_true, if_false, if_pos htwo, payload, Option.getD_some]

theorem decodeRune_three {b₀ b₁ b₂ : UInt8} (hlow : 0xE0 ≤ b₀.toNat) (hhigh : b₀.toNat < 0xF0)
    (h₁ : SecondByte b₀ b₁) (h₂ : isContinuation b₂ = true) (rest : Bytes) :
    decodeRune (b₀ :: b₁ :: b₂ :: rest) =
      some (Char.ofNat ((b₀.toNat % 16 * 64 + b₁.toNat % 64) * 64 + b₂.toNat % 64), rest) := by
  obtain ⟨lo, hi, hrange, hlo, hhi⟩ := secondByteRange_of_secondByte (by omega) (by omega) h₁
  have hascii : ¬b₀ < 0x80 := fun h => absurd (UInt8.lt_iff_toNat_lt.mp h) (by simp; omega)
  have htwo : ¬b₀ < 0xE0 := fun h => absurd (UInt8.lt_iff_toNat_lt.mp h) (by simp; omega)
  have hthree : b₀ < 0xF0 := UInt8.lt_iff_toNat_lt.mpr hhigh
  rw [decodeRune, if_neg hascii]
  unfold decodeMultibyte
  simp only [hrange, hlo, hhi, and_self, not_true, if_false, if_neg htwo, h₂, if_pos hthree, payload, Option.getD_some]

theorem decodeRune_four {b₀ b₁ b₂ b₃ : UInt8} (hlow : 0xF0 ≤ b₀.toNat) (hhigh : b₀.toNat ≤ 0xF4)
    (h₁ : SecondByte b₀ b₁) (h₂ : isContinuation b₂ = true) (h₃ : isContinuation b₃ = true) (rest : Bytes) :
    decodeRune (b₀ :: b₁ :: b₂ :: b₃ :: rest) =
      some (Char.ofNat (((b₀.toNat % 8 * 64 + b₁.toNat % 64) * 64 + b₂.toNat % 64) * 64 + b₃.toNat % 64), rest) := by
  obtain ⟨lo, hi, hrange, hlo, hhi⟩ := secondByteRange_of_secondByte (by omega) (by omega) h₁
  have hascii : ¬b₀ < 0x80 := fun h => absurd (UInt8.lt_iff_toNat_lt.mp h) (by simp; omega)
  have htwo : ¬b₀ < 0xE0 := fun h => absurd (UInt8.lt_iff_toNat_lt.mp h) (by simp; omega)
  have hthree : ¬b₀ < 0xF0 := fun h => absurd (UInt8.lt_iff_toNat_lt.mp h) (by simp; omega)
  rw [decodeRune, if_neg hascii]
  unfold decodeMultibyte
  simp only [hrange, hlo, hhi, and_self, not_true, if_false, if_neg htwo, h₂, if_neg hthree, h₃, payload,
    Option.getD_some]

theorem char_scalar (c : Char) : c.toNat < 0xD800 ∨ (0xDFFF < c.toNat ∧ c.toNat < 0x110000) := c.valid

theorem toNat_ofNat_byte {n : ℕ} (h : n < 256) : (UInt8.ofNat n).toNat = n := by
  rw [UInt8.toNat_ofNat', Nat.mod_eq_of_lt h]

theorem isContinuation_ofNat (n : ℕ) : isContinuation (UInt8.ofNat (n % 0x40 + 0x80)) = true := by
  rw [isContinuation_iff, toNat_ofNat_byte (by omega)]
  omega

theorem decodeRune_utf8EncodeChar (c : Char) (rest : Bytes) :
    decodeRune (String.utf8EncodeChar c ++ rest) = some (c, rest) := by
  have hscalar := char_scalar c
  have hval : c.val.toNat = c.toNat := rfl
  have hc : ∀ n, n = c.toNat → some (Char.ofNat n, rest) = some (c, rest) := by
    rintro n rfl
    rw [Char.ofNat_toNat]
  rw [String.utf8EncodeChar, hval]
  split_ifs with hone htwo hthree
  · have h₀ := toNat_ofNat_byte (n := c.toNat) (by omega)
    rw [List.singleton_append, decodeRune_one (by omega)]
    exact hc _ h₀
  · have h₀ := toNat_ofNat_byte (n := c.toNat / 64 % 0x20 + 0xc0) (by omega)
    have h₁ := toNat_ofNat_byte (n := c.toNat % 0x40 + 0x80) (by omega)
    rw [List.cons_append, List.singleton_append, decodeRune_two (by omega) (by omega) (by constructor <;> omega)]
    exact hc _ (by omega)
  · have h₀ := toNat_ofNat_byte (n := c.toNat / 4096 % 0x10 + 0xe0) (by omega)
    have h₁ := toNat_ofNat_byte (n := c.toNat / 64 % 0x40 + 0x80) (by omega)
    have h₂ := toNat_ofNat_byte (n := c.toNat % 0x40 + 0x80) (by omega)
    rw [List.cons_append, List.cons_append, List.singleton_append, decodeRune_three (by omega) (by omega)
      (by constructor <;> omega) (isContinuation_ofNat _)]
    exact hc _ (by omega)
  · have h₀ := toNat_ofNat_byte (n := c.toNat / 262144 % 0x08 + 0xf0) (by omega)
    have h₁ := toNat_ofNat_byte (n := c.toNat / 4096 % 0x40 + 0x80) (by omega)
    have h₂ := toNat_ofNat_byte (n := c.toNat / 64 % 0x40 + 0x80) (by omega)
    have h₃ := toNat_ofNat_byte (n := c.toNat % 0x40 + 0x80) (by omega)
    rw [List.cons_append, List.cons_append, List.cons_append, List.singleton_append, decodeRune_four (by omega)
      (by omega) (by constructor <;> omega) (isContinuation_ofNat _) (isContinuation_ofNat _)]
    exact hc _ (by omega)

/-! ## Reading a string back -/

theorem decodeRunes_encode_append : ∀ {fuel : ℕ} (cs : List Char) (rest : Bytes), (encode cs ++ rest).length ≤ fuel →
    decodeRunes fuel (encode cs ++ rest) = cs ++ decodeRunes (fuel - cs.length) rest
  | fuel, [], rest, _ => by simp
  | 0, c :: cs, rest, hfuel => by
      have hpos := List.length_pos_iff.mpr (String.utf8EncodeChar_ne_nil (c := c))
      simp only [encode_cons, List.length_append] at hfuel
      omega
  | fuel + 1, c :: cs, rest, hfuel => by
      have hpos := List.length_pos_iff.mpr (String.utf8EncodeChar_ne_nil (c := c))
      rw [encode_cons, List.append_assoc, List.length_append] at hfuel
      have ih := @decodeRunes_encode_append fuel cs rest (by omega)
      rw [encode_cons, List.append_assoc, decodeRunes, decodeRune_utf8EncodeChar]
      simp only [ih, List.cons_append, List.length_cons, Nat.add_sub_add_right]

theorem runes_encode (cs : List Char) : runes (encode cs) = cs := by
  have h := @decodeRunes_encode_append (encode cs).length cs [] (by simp)
  rw [List.append_nil] at h
  rw [runes, h]
  cases (encode cs).length - cs.length <;> simp [decodeRunes, decodeRune]

theorem toText_bytes (s : String) : toText (bytes s) = s := by
  show String.ofList (runes (encode s.toList)) = s
  rw [runes_encode, String.ofList_toList]

theorem bytes_toText {bs : Bytes} (h : WellFormed bs) : bytes (toText bs) = bs := by
  obtain ⟨cs, rfl⟩ := h
  change encode (String.ofList (runes (encode cs))).toList = encode cs
  rw [runes_encode, String.toList_ofList]

/-! ## Cutting a string -/

/-- A character's first byte continues nothing, and the others continue it. -/
theorem utf8EncodeChar_eq_cons (c : Char) : ∃ b bs, String.utf8EncodeChar c = b :: bs ∧ isContinuation b = false ∧
    (∀ x ∈ bs, isContinuation x = true) ∧ (b.toNat < 0x80 → bs = []) := by
  have hscalar := char_scalar c
  have hval : c.val.toNat = c.toNat := rfl
  have hlead : ∀ n, n < 256 → (n < 0x80 ∨ 0xBF < n) → isContinuation (UInt8.ofNat n) = false := by
    intro n hbyte hn
    rw [Bool.eq_false_iff, ne_eq, isContinuation_iff, toNat_ofNat_byte hbyte]
    omega
  have hlarge : ∀ n, n < 256 → 0x80 ≤ n → ∀ {bs : Bytes}, (UInt8.ofNat n).toNat < 0x80 → bs = [] := by
    intro n hbyte hn bs h
    rw [toNat_ofNat_byte hbyte] at h
    omega
  rw [String.utf8EncodeChar, hval]
  split_ifs with hone htwo hthree
  · exact ⟨_, _, rfl, hlead _ (by omega) (by omega), by simp, fun _ => rfl⟩
  · refine ⟨_, _, rfl, hlead _ (by omega) (by omega), ?_, hlarge _ (by omega) (by omega)⟩
    simp only [List.forall_mem_cons, isContinuation_ofNat, true_and]
    simp
  · refine ⟨_, _, rfl, hlead _ (by omega) (by omega), ?_, hlarge _ (by omega) (by omega)⟩
    simp only [List.forall_mem_cons, isContinuation_ofNat, true_and]
    simp
  · refine ⟨_, _, rfl, hlead _ (by omega) (by omega), ?_, hlarge _ (by omega) (by omega)⟩
    simp only [List.forall_mem_cons, isContinuation_ofNat, true_and]
    simp

theorem take_wellFormed {cs : List Char} : ∀ {n : ℕ}, (∀ b, (encode cs)[n]? = some b → isContinuation b = false) →
    WellFormed ((encode cs).take n) := by
  induction cs with
  | nil => exact fun {n} _ => ⟨[], List.take_nil⟩
  | cons c cs ih =>
    intro n hn
    obtain ⟨b, bs, hc, -, hbs, -⟩ := utf8EncodeChar_eq_cons c
    rw [encode_cons] at hn ⊢
    by_cases hlen : (String.utf8EncodeChar c).length ≤ n
    · rw [List.getElem?_append_right hlen] at hn
      obtain ⟨ds, hds⟩ := ih hn
      rw [List.take_append, List.take_of_length_le hlen, hds]
      exact ⟨c :: ds, rfl⟩
    · cases n with
      | zero => exact ⟨[], rfl⟩
      | succ n =>
        -- the cut falls inside `c`
        rw [List.getElem?_append_left (by omega), hc, List.getElem?_cons_succ] at hn
        rw [hc, List.length_cons] at hlen
        have hlt : n < bs.length := by omega
        have hfalse := hn bs[n] (List.getElem?_eq_getElem hlt)
        rw [hbs _ (List.getElem_mem hlt)] at hfalse
        cases hfalse

theorem exists_rest_of_append {ds cs : List Char} {rest : Bytes} (h : encode cs = encode ds ++ rest) :
    ∃ es, rest = encode es := by
  have hcs : cs = ds ++ decodeRunes ((encode ds ++ rest).length - ds.length) rest := by
    rw [← decodeRunes_encode_append ds rest le_rfl, ← h]
    exact (runes_encode cs).symm
  refine ⟨decodeRunes ((encode ds ++ rest).length - ds.length) rest, ?_⟩
  rw [hcs, encode_append] at h
  exact (List.append_cancel_left h).symm

/-- A string cut at a byte is well formed exactly when the byte continues no character. -/
theorem take_wellFormed_iff {cs : List Char} {n : ℕ} : WellFormed ((encode cs).take n) ↔
    ∀ b, (encode cs)[n]? = some b → isContinuation b = false := by
  refine ⟨?_, take_wellFormed⟩
  rintro ⟨ds, hds⟩ b hb
  obtain ⟨hn, hget⟩ := List.getElem?_eq_some_iff.mp hb
  have hsplit : encode cs = encode ds ++ (encode cs).drop n := by rw [← hds, List.take_append_drop]
  obtain ⟨es, hes⟩ := exists_rest_of_append hsplit
  have hhead : (encode es)[0]? = some b := by rw [← hes, List.getElem?_drop, Nat.add_zero, hb]
  cases es with
  | nil => cases hhead
  | cons e es =>
    obtain ⟨b', bs, he, hlead, -⟩ := utf8EncodeChar_eq_cons e
    rw [encode_cons, he] at hhead
    cases hhead
    exact hlead

/-- An ASCII byte is a character, so what stands on its two sides is well formed. -/
theorem WellFormed.of_append_cons {a : UInt8} (ha : a.toNat < 0x80) {l r : Bytes} (h : WellFormed (l ++ a :: r)) :
    WellFormed l ∧ WellFormed r := by
  obtain ⟨cs, hcs⟩ := h
  have hl : WellFormed l := by
    have htake : WellFormed ((encode cs).take l.length) := by
      apply take_wellFormed
      intro b hb
      rw [← hcs, List.getElem?_append_right le_rfl, Nat.sub_self] at hb
      cases hb
      rw [Bool.eq_false_iff, ne_eq, isContinuation_iff]
      omega
    rwa [← hcs, List.take_left] at htake
  refine ⟨hl, ?_⟩
  obtain ⟨ds, rfl⟩ := hl
  obtain ⟨es, hes⟩ := exists_rest_of_append hcs.symm
  cases es with
  | nil => cases hes
  | cons e es =>
    obtain ⟨b, bs, he, -, -, hone⟩ := utf8EncodeChar_eq_cons e
    rw [encode_cons, he, List.cons_append, List.cons.injEq] at hes
    obtain ⟨rfl, hr⟩ := hes
    rw [hone ha] at hr
    exact ⟨es, hr⟩

/-! ## Mapping characters -/

/-- `strings.Map`, where `none` drops a character; what is not UTF-8 is met as U+FFFD. -/
def mapRunes (f : Char → Option Char) (bs : Bytes) : Bytes := encode ((runes bs).filterMap f)

end Foundations.Text
