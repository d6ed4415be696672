import GarageConsole.Foundations.CutOff
import GarageConsole.Foundations.Utf8

/-! # Writing JSON

`write` puts a tree down as a text: a character that has to be escaped as its short escape or as `\u` and four
digits, and between the tokens what the style says, nothing or line ends and blanks. Whatever the style, the
reader gets the tree back (`parse_write`). A number that is an integer is written with all its digits; any other
is written as its mantissa and its exponent.
-/

namespace Foundations.JsonWriter

open Text Json

set_option autoImplicit false

/-- Which characters are escaped besides those that must be, and the blanks of one level of indentation. -/
structure Style where
  escaped : Char → Bool
  escaped_bmp : ∀ c, escaped c = true → c.toNat < 0x10000
  gap : Bytes
  gap_blank : ∀ b ∈ gap, isSpace b = true

variable (style : Style)

/-! ## Strings -/

def hexDigit (n : ℕ) : UInt8 := if n < 10 then UInt8.ofNat (0x30 + n) else UInt8.ofNat (0x61 + (n - 10))

def unicodeDigits (n : ℕ) : Bytes :=
  [hexDigit (n / 4096 % 16), hexDigit (n / 256 % 16), hexDigit (n / 16 % 16), hexDigit (n % 16)]

/-- The letter of the escape of a character that has one. -/
def shortEscape (c : Char) : Option UInt8 :=
  if c = '"' then some 0x22
  else if c = '\\' then some 0x5C
  else if c = '\x08' then some 0x62
  else if c = '\x0C' then some 0x66
  else if c = '\n' then some 0x6E
  else if c = '\r' then some 0x72
  else if c = '\t' then some 0x74
  else none

def spell (c : Char) : Bytes :=
  match shortEscape c with
  | some e => [0x5C, e]
  | none => if c.toNat < 0x20 || style.escaped c then 0x5C :: 0x75 :: unicodeDigits c.toNat else String.utf8EncodeChar c

def spellAll (cs : List Char) : Bytes := cs.flatMap (spell style)

/-- A string with its quotes. -/
def quote (s : String) : Bytes := 0x22 :: (spellAll style s.toList ++ [0x22])

theorem hexValue_hexDigit {n : ℕ} (h : n < 16) : hexValue (hexDigit n) = some n := by
  have hall : ∀ n < 16, hexValue (hexDigit n) = some n := by decide
  exact hall n h

theorem hex4_unicodeDigits {n : ℕ} (h : n < 0x10000) (rest : Bytes) :
    hex4 (unicodeDigits n ++ rest) = some (n, rest) := by
  have hsum : ((n / 4096 % 16 * 16 + n / 256 % 16) * 16 + n / 16 % 16) * 16 + n % 16 = n := by omega
  simp only [unicodeDigits, List.cons_append, List.nil_append, hex4,
    hexValue_hexDigit (Nat.mod_lt _ (by decide : 0 < 16)), Option.bind_eq_bind, Option.bind_some, hsum]

theorem simpleEscape_of_short {c : Char} {e : UInt8} (h : shortEscape c = some e) : simpleEscape e = some c := by
  unfold shortEscape at h
  split_ifs at h with h₁ h₂ h₃ h₄ h₅ h₆ h₇
  all_goals
    obtain rfl := Option.some.inj h
    subst c
    rfl

/-- The bytes of a character that needs no escape are taken as they are. -/
theorem scan_utf8 {c : Char} (hshort : shortEscape c = none) (hlow : ¬c.toNat < 0x20) (more : Bytes) :
    scanString (String.utf8EncodeChar c ++ more) =
      (scanString more).map fun out => (String.utf8EncodeChar c ++ out.1, out.2) := by
  have hplain : ∀ b ∈ String.utf8EncodeChar c, ¬b = 0x22 ∧ ¬b < 0x20 ∧ ¬b = 0x5C := by
    intro b hb
    have hquote : c.toNat ≠ 0x22 := by
      intro heq
      rw [← Char.ofNat_toNat c, heq] at hshort
      exact absurd hshort (by decide)
    have hback : c.toNat ≠ 0x5C := by
      intro heq
      rw [← Char.ofNat_toNat c, heq] at hshort
      exact absurd hshort (by decide)
    have hnat : b.toNat ≠ 0x22 ∧ 0x20 ≤ b.toNat ∧ b.toNat ≠ 0x5C := by
      rcases mem_utf8EncodeChar hb with heq | ⟨hlarge, -⟩ <;> omega
    refine ⟨fun heq => hnat.1 (by rw [heq]; rfl), fun hlt => ?_, fun heq => hnat.2.2 (by rw [heq]; rfl)⟩
    exact absurd (UInt8.lt_iff_toNat_lt.mp hlt) (Nat.not_lt.mpr hnat.2.1)
  generalize String.utf8EncodeChar c = bs at hplain
  induction bs with
  | nil => simp
  | cons b bs ih =>
    obtain ⟨hquote, hcontrol, hescape⟩ := hplain b List.mem_cons_self
    have ih := ih fun b' hb' => hplain b' (List.mem_cons_of_mem _ hb')
    rw [List.cons_append, ← List.singleton_append, CutOff.scan_plain hquote hcontrol hescape, ih, Option.map_map]
    rfl

theorem scan_spell (c : Char) (more : Bytes) :
    scanString (spell style c ++ more) = (scanString more).map fun out => (spell style c ++ out.1, out.2) := by
  unfold spell
  split
  · rename_i e he
    exact CutOff.scan_escape (by simp [simpleEscape_of_short he]) more
  · rename_i hshort
    split
    · rename_i hescaped
      have hbmp : c.toNat < 0x10000 := by
        rcases Bool.or_eq_true_iff.mp hescaped with hlow | hescaped
        · have := of_decide_eq_true hlow
          omega
        · exact style.escaped_bmp c hescaped
      refine CutOff.scan_unicode ?_ more
      rw [← List.append_nil [hexDigit _, _, _, _], ← unicodeDigits, hex4_unicodeDigits hbmp]
      exact Bool.false_ne_true
    · rename_i hplain
      simp only [Bool.or_eq_true, decide_eq_true_eq, not_or] at hplain
      exact scan_utf8 hshort hplain.1 more

/-- What is spelled is read as the character. -/
theorem unquoteChar_spell (c : Char) (rest : Bytes) : unquoteChar (spell style c ++ rest) = some (c, rest) := by
  unfold spell
  split
  · rename_i e he
    have hsimple := simpleEscape_of_short he
    have hne : e ≠ 0x75 := by
      rintro rfl
      exact absurd hsimple (by simp [show simpleEscape 0x75 = none from rfl])
    rw [List.cons_append, List.cons_append, List.nil_append]
    unfold unquoteChar
    split
    · rename_i heq
      exact absurd (List.cons.inj (List.cons.inj heq).2).1 hne
    · rename_i heq
      obtain ⟨rfl, rfl⟩ := List.cons.inj (List.cons.inj heq).2
      rw [hsimple, Option.map_some]
    · rename_i hnot
      exact absurd rfl (hnot e rest)
  · rename_i hshort
    split
    · rename_i hescaped
      have hscalar := char_scalar c
      have hbmp : c.toNat < 0x10000 := by
        rcases Bool.or_eq_true_iff.mp hescaped with hlow | hescaped
        · have := of_decide_eq_true hlow
          omega
        · exact style.escaped_bmp c hescaped
      have hchar : unicodeEscape c.toNat rest = (c, rest) := by
        unfold unicodeEscape
        rw [if_pos (by omega), Char.ofNat_toNat]
      rw [List.cons_append, List.cons_append, unquoteChar, hex4_unicodeDigits hbmp, Option.map_some, hchar]
    · rename_i hplain
      have hback : ∀ bs, String.utf8EncodeChar c ++ rest ≠ 0x5C :: bs := by
        intro bs heq
        have hmem : 0x5C ∈ String.utf8EncodeChar c := by
          cases henc : String.utf8EncodeChar c with
          | nil => exact absurd henc String.utf8EncodeChar_ne_nil
          | cons b tail =>
            rw [henc, List.cons_append] at heq
            rw [(List.cons.inj heq).1]
            exact List.mem_cons_self
        rcases mem_utf8EncodeChar hmem with hnat | ⟨hlarge, -⟩
        · rw [← Char.ofNat_toNat c, ← hnat] at hshort
          exact absurd hshort (by decide)
        · exact absurd hlarge (by decide)
      unfold unquoteChar
      split
      · rename_i heq
        exact absurd heq (hback _)
      · rename_i heq
        exact absurd heq (hback _)
      · exact decodeRune_utf8EncodeChar c rest

theorem spell_ne_nil (c : Char) : spell style c ≠ [] := by
  unfold spell
  split
  · exact List.cons_ne_nil _ _
  · split
    · exact List.cons_ne_nil _ _
    · exact String.utf8EncodeChar_ne_nil

theorem length_le_spellAll (cs : List Char) : cs.length ≤ (spellAll style cs).length := by
  induction cs with
  | nil => exact Nat.zero_le _
  | cons c cs ih =>
    have hpos := List.length_pos_iff.mpr (spell_ne_nil style c)
    rw [spellAll, List.flatMap_cons, ← spellAll, List.length_append, List.length_cons]
    omega

theorem scan_spellAll (cs : List Char) (rest : Bytes) :
    scanString (spellAll style cs ++ 0x22 :: rest) = some (spellAll style cs, rest) := by
  induction cs with
  | nil =>
    rw [spellAll, List.flatMap_nil, List.nil_append, scanString.eq_def]
    rfl
  | cons c cs ih =>
    rw [spellAll, List.flatMap_cons, ← spellAll, List.append_assoc, scan_spell, ih]
    rfl

theorem unquote_spellAll {fuel : ℕ} : ∀ {cs : List Char}, cs.length ≤ fuel → unquote fuel (spellAll style cs) = cs := by
  induction fuel with
  | zero =>
    intro cs h
    rw [List.eq_nil_of_length_eq_zero (Nat.le_zero.mp h)]
    rfl
  | succ fuel ih =>
    intro cs h
    cases cs with
    | nil => rfl
    | cons c cs =>
      rw [unquote, spellAll, List.flatMap_cons, ← spellAll, unquoteChar_spell]
      dsimp only
      rw [ih (Nat.le_of_succ_le_succ h)]

theorem parseString_spellAll (s : String) (rest : Bytes) :
    parseString (spellAll style s.toList ++ 0x22 :: rest) = some (s, rest) := by
  rw [parseString, scan_spellAll, Option.map_some, unquote_spellAll style (length_le_spellAll style s.toList),
    String.ofList_toList]

/-! ## Numbers -/

def integer (n : ℤ) : Bytes := if n < 0 then 0x2D :: decimal n.natAbs else decimal n.natAbs

def number : Number → Bytes
  | .int n => integer n
  | .minusZero => 0x2D :: decimal 0
  | .dec mantissa exponent => integer mantissa ++ 0x65 :: integer exponent

/-- Nothing that would go on with a number. -/
def Ends (rest : Bytes) : Prop := ∀ b ∈ rest.head?, isDigit b = false ∧ b ≠ 0x2E ∧ b ≠ 0x65 ∧ b ≠ 0x45

theorem ends_nil : Ends [] := by simp [Ends]

theorem ends_cons {b : UInt8} (h : isDigit b = false ∧ b ≠ 0x2E ∧ b ≠ 0x65 ∧ b ≠ 0x45) (rest : Bytes) :
    Ends (b :: rest) := by
  intro b' hb'
  obtain rfl := Option.some.inj hb'
  exact h

theorem isDigit_decimal {n : ℕ} {b : UInt8} (h : b ∈ decimal n) : isDigit b = true := by
  obtain ⟨hlow, hhigh⟩ := digit_of_mem_decimal h
  simp only [isDigit, Bool.and_eq_true, decide_eq_true_eq, UInt8.le_iff_toNat_le]
  exact ⟨hlow, hhigh⟩

theorem decimal_eq (n : ℕ) : decimal n = (Nat.toDigits 10 n).map fun c => UInt8.ofNat c.toNat := by
  rw [decimal, bytes, Nat.toString_eq_repr, Nat.toList_repr]
  have hdigit : ∀ c ∈ Nat.toDigits 10 n, c.isDigit = true := fun c hc =>
    Nat.isDigit_of_mem_toDigits (by decide) (by decide) hc
  generalize Nat.toDigits 10 n = cs at hdigit
  induction cs with
  | nil => rfl
  | cons c cs ih =>
    have hc := hdigit c List.mem_cons_self
    rw [Char.isDigit, Bool.and_eq_true, decide_eq_true_eq, decide_eq_true_eq] at hc
    have hsmall : c.val.toNat ≤ 0x7F := (UInt32.le_iff_toNat_le.mp hc.2).trans (by decide)
    rw [List.flatMap_cons, List.map_cons, ih fun d hd => hdigit d (List.mem_cons_of_mem c hd), String.utf8EncodeChar,
      if_pos hsmall, List.singleton_append]
    rfl

theorem natOfDigits_decimal (n : ℕ) : natOfDigits (decimal n) = n := by
  have hvalue : ∀ (cs : List Char) (acc : ℕ), (∀ c ∈ cs, c.isDigit = true) →
      (cs.map fun c => UInt8.ofNat c.toNat).foldl (fun n d => n * 10 + (d.toNat - 0x30)) acc =
        Nat.ofDigitChars 10 cs acc := by
    intro cs
    induction cs with
    | nil => exact fun acc _ => rfl
    | cons c cs ih =>
      intro acc hcs
      have hc := hcs c List.mem_cons_self
      rw [Char.isDigit, Bool.and_eq_true, decide_eq_true_eq, decide_eq_true_eq] at hc
      have hhigh : c.toNat ≤ 57 := UInt32.le_iff_toNat_le.mp hc.2
      rw [List.map_cons, List.foldl_cons, ih _ fun d hd => hcs d (List.mem_cons_of_mem c hd),
        toNat_ofNat_byte (by omega), Nat.mul_comm]
      rfl
  rw [natOfDigits, decimal_eq, hvalue _ _ fun c hc => Nat.isDigit_of_mem_toDigits (by decide) (by decide) hc]
  exact Nat.ofDigitChars_ten_toDigits

theorem decimal_ne_nil (n : ℕ) : decimal n ≠ [] := by
  rw [decimal_eq]
  exact fun h => Nat.toDigits_ne_nil (List.map_eq_nil_iff.mp h)

theorem isDigit_of_decimal_append {n : ℕ} {b : UInt8} {rest bs : Bytes} (h : decimal n ++ rest = b :: bs) :
    isDigit b = true := by
  cases hdec : decimal n with
  | nil => exact absurd hdec (decimal_ne_nil n)
  | cons d ds =>
    rw [hdec] at h
    rw [← (List.cons.inj h).1]
    exact isDigit_decimal (n := n) (by rw [hdec]; exact List.mem_cons_self)

/-- The digits are taken up to the end of the number. -/
theorem scanDigits_decimal (n : ℕ) {rest : Bytes} (h : ∀ b ∈ rest.head?, isDigit b = false) :
    scanDigits (decimal n ++ rest) = some (decimal n, rest) := by
  have hall : ∀ b ∈ decimal n, isDigit b = true := fun b hb => isDigit_decimal hb
  have hrest : rest.takeWhile isDigit = [] ∧ rest.dropWhile isDigit = rest := by
    cases rest with
    | nil => exact ⟨rfl, rfl⟩
    | cons b rest =>
      have hb := h b rfl
      exact ⟨List.takeWhile_cons_of_neg (by simp [hb]), List.dropWhile_cons_of_neg (by simp [hb])⟩
  have htake : (decimal n ++ rest).takeWhile isDigit = decimal n := by
    rw [List.takeWhile_append_of_pos hall, hrest.1, List.append_nil]
  have hdrop : (decimal n ++ rest).dropWhile isDigit = rest := by
    rw [List.dropWhile_append_of_pos hall, hrest.2]
  rw [scanDigits, htake, hdrop, if_neg]
  simp [decimal_ne_nil]

/-- No leading zeros. -/
theorem head_toDigits {n : ℕ} (h : 0 < n) : (Nat.toDigits 10 n).head? ≠ some '0' := by
  induction n using Nat.strong_induction_on with
  | h n ih =>
    rcases Nat.lt_or_ge n 10 with hlt | hge
    · rw [Nat.toDigits_of_lt_base hlt]
      have hall : ∀ n < 10, 0 < n → [n.digitChar].head? ≠ some '0' := by decide
      exact hall n hlt h
    · have hhead := ih (n / 10) (by omega) (by omega)
      rw [Nat.toDigits_of_base_le (by decide) hge]
      cases hdigits : Nat.toDigits 10 (n / 10) with
      | nil => exact absurd hdigits Nat.toDigits_ne_nil
      | cons c cs => rwa [hdigits] at hhead

theorem scanIntPart_decimal (n : ℕ) {rest : Bytes} (h : ∀ b ∈ rest.head?, isDigit b = false) :
    scanIntPart (decimal n ++ rest) = some (decimal n, rest) := by
  rcases Nat.eq_zero_or_pos n with rfl | hpos
  · rfl
  · have hhead : ∀ bs, decimal n ++ rest ≠ 0x30 :: bs := by
      intro bs heq
      have hfirst := head_toDigits hpos
      have hdigit : ∀ c ∈ Nat.toDigits 10 n, c.isDigit = true := fun c hc =>
        Nat.isDigit_of_mem_toDigits (by decide) (by decide) hc
      rw [decimal_eq] at heq
      cases hdigits : Nat.toDigits 10 n with
      | nil => exact absurd hdigits Nat.toDigits_ne_nil
      | cons c cs =>
        rw [hdigits] at heq hfirst hdigit
        have hc := hdigit c List.mem_cons_self
        rw [Char.isDigit, Bool.and_eq_true, decide_eq_true_eq, decide_eq_true_eq] at hc
        have hhigh : c.toNat ≤ 57 := UInt32.le_iff_toNat_le.mp hc.2
        have hbyte : UInt8.ofNat c.toNat = 0x30 := (List.cons.inj heq).1
        have hnat : c.toNat = 0x30 := by rw [← toNat_ofNat_byte (n := c.toNat) (by omega), hbyte]; rfl
        rw [← Char.ofNat_toNat c, hnat] at hfirst
        exact hfirst rfl
    unfold scanIntPart
    split
    · rename_i heq
      exact absurd heq (hhead _)
    · exact scanDigits_decimal n h

theorem scanFraction_ends {rest : Bytes} (h : ∀ b ∈ rest.head?, b ≠ 0x2E) : scanFraction rest = some ([], rest) := by
  unfold scanFraction
  split
  · exact absurd rfl (h _ rfl)
  · rfl

theorem scanExponent_ends {rest : Bytes} (h : Ends rest) : scanExponent rest = some (none, rest) := by
  cases rest with
  | nil => rfl
  | cons b rest =>
    obtain ⟨-, -, hlower, hupper⟩ := h b rfl
    simp [scanExponent, hlower, hupper]

theorem scanExponent_cons (rest : Bytes) : scanExponent (0x65 :: rest) =
    match rest with
    | 0x2D :: r => (scanDigits r).map fun out => (some (-(natOfDigits out.1 : ℤ)), out.2)
    | 0x2B :: r => (scanDigits r).map fun out => (some (natOfDigits out.1 : ℤ), out.2)
    | r => (scanDigits r).map fun out => (some (natOfDigits out.1 : ℤ), out.2) := rfl

theorem scanExponent_integer (e : ℤ) {rest : Bytes} (h : Ends rest) :
    scanExponent (0x65 :: (integer e ++ rest)) = some (some e, rest) := by
  have hscan := scanDigits_decimal e.natAbs fun b hb => (h b hb).1
  rw [scanExponent_cons]
  unfold integer
  split_ifs with hneg
  · rw [List.cons_append]
    show (scanDigits (decimal e.natAbs ++ rest)).map _ = _
    rw [hscan, Option.map_some, natOfDigits_decimal, show -(e.natAbs : ℤ) = e by omega]
  · split
    · rename_i heq
      exact absurd (isDigit_of_decimal_append heq) (by decide)
    · rename_i heq
      exact absurd (isDigit_of_decimal_append heq) (by decide)
    · rw [hscan, Option.map_some, natOfDigits_decimal, show ((e.natAbs : ℕ) : ℤ) = e by omega]

section Unsigned

variable {sign : ℤ} (n : ℕ) {rest : Bytes} (h : Ends rest)

include h

theorem parseUnsigned_decimal : parseUnsigned sign (decimal n ++ rest) = some (.int (sign * n), rest) := by
  have hdigits := scanIntPart_decimal n fun b hb => (h b hb).1
  have hfraction := scanFraction_ends fun b hb => (h b hb).2.1
  simp [parseUnsigned, hdigits, hfraction, scanExponent_ends h, natOfDigits_decimal]

theorem parseUnsigned_exponent (e : ℤ) :
    parseUnsigned sign (decimal n ++ 0x65 :: (integer e ++ rest)) = some (.dec (sign * n) e, rest) := by
  have hhead : ∀ b ∈ (0x65 :: (integer e ++ rest)).head?, isDigit b = false ∧ b ≠ 0x2E := by
    intro b hb
    obtain rfl := Option.some.inj hb
    decide
  have hdigits := scanIntPart_decimal n fun b hb => (hhead b hb).1
  have hfraction := scanFraction_ends fun b hb => (hhead b hb).2
  simp [parseUnsigned, hdigits, hfraction, scanExponent_integer e h, natOfDigits_decimal]

end Unsigned

theorem parseNumber_of_digits {n : ℕ} {rest : Bytes} :
    parseNumber (decimal n ++ rest) = parseUnsigned 1 (decimal n ++ rest) := by
  unfold parseNumber
  split
  · rename_i heq
    exact absurd (isDigit_of_decimal_append heq) (by decide)
  · rfl

theorem parseNumber_number (n : Number) {rest : Bytes} (h : Ends rest) :
    parseNumber (number n ++ rest) = some (n, rest) := by
  cases n with
  | int n =>
    rw [number, integer]
    split_ifs with hneg
    · have hne : n ≠ 0 := by omega
      rw [List.cons_append, parseNumber, parseUnsigned_decimal _ h, show -1 * (n.natAbs : ℤ) = n by omega,
        Option.map_some, if_neg (mt Number.int.inj hne)]
    · rw [parseNumber_of_digits, parseUnsigned_decimal _ h, show 1 * (n.natAbs : ℤ) = n by omega]
  | minusZero =>
    rw [number, List.cons_append, parseNumber, parseUnsigned_decimal _ h]
    rfl
  | dec m e =>
    rw [number, List.append_assoc, List.cons_append]
    rw [integer]
    split_ifs with hneg
    · rw [List.cons_append, parseNumber, parseUnsigned_exponent _ h, show -1 * (m.natAbs : ℤ) = m by omega,
        Option.map_some, if_neg nofun]
    · rw [parseNumber_of_digits, parseUnsigned_exponent _ h, show 1 * (m.natAbs : ℤ) = m by omega]

/-! ## Values -/

/-- What stands before an item, or before the closing bracket: a new line with its indentation, or nothing. -/
def newline (indent : Bytes) : Bytes := if style.gap = [] then [] else 0x0A :: indent

def colon : Bytes := if style.gap = [] then [0x3A] else [0x3A, 0x20]

mutual

def write (indent : Bytes) : Json → Bytes
  | .null => bytes "null"
  | .bool true => bytes "true"
  | .bool false => bytes "false"
  | .num n => number n
  | .str s => quote style s
  | .arr [] => [0x5B, 0x5D]
  | .arr (v :: vs) =>
    0x5B :: (newline style (indent ++ style.gap) ++ (write (indent ++ style.gap) v ++ writeItems indent vs))
  | .obj [] => [0x7B, 0x7D]
  | .obj ((name, v) :: members) =>
    0x7B :: (newline style (indent ++ style.gap) ++
      (quote style name ++ (colon style ++ (write (indent ++ style.gap) v ++ writeMembers indent members))))

/-- The items after the first one, and the closing bracket. -/
def writeItems (indent : Bytes) : List Json → Bytes
  | [] => newline style indent ++ [0x5D]
  | v :: vs =>
    0x2C :: (newline style (indent ++ style.gap) ++ (write (indent ++ style.gap) v ++ writeItems indent vs))

def writeMembers (indent : Bytes) : List (String × Json) → Bytes
  | [] => newline style indent ++ [0x7D]
  | (name, v) :: members =>
    0x2C :: (newline style (indent ++ style.gap) ++
      (quote style name ++ (colon style ++ (write (indent ++ style.gap) v ++ writeMembers indent members))))

end

mutual

/-- As much fuel as reading the value takes. -/
def fuel : Json → ℕ
  | .arr vs => fuelItems vs + 1
  | .obj members => fuelMembers members + 1
  | _ => 1

def fuelItems : List Json → ℕ
  | [] => 0
  | v :: vs => max (fuel v) (fuelItems vs) + 1

def fuelMembers : List (String × Json) → ℕ
  | [] => 0
  | (_, v) :: members => max (fuel v) (fuelMembers members) + 1

end

theorem skipSpace_newline {indent : Bytes} (h : ∀ b ∈ indent, isSpace b = true) (rest : Bytes) :
    skipSpace (newline style indent ++ rest) = skipSpace rest := by
  unfold newline
  split
  · rfl
  · refine CutOff.skipSpace_blanks (fun b hb => ?_) rest
    rcases List.mem_cons.mp hb with rfl | hb
    · rfl
    · exact h b hb

theorem indent_blank {indent : Bytes} (h : ∀ b ∈ indent, isSpace b = true) :
    ∀ b ∈ indent ++ style.gap, isSpace b = true := by
  intro b hb
  rcases List.mem_append.mp hb with hb | hb
  · exact h b hb
  · exact style.gap_blank b hb

theorem number_head (n : Number) : ∃ b bs, number n = b :: bs ∧ (isDigit b = true ∨ b = 0x2D) := by
  have hinteger (m : ℤ) (more : Bytes) : ∃ b bs, integer m ++ more = b :: bs ∧ (isDigit b = true ∨ b = 0x2D) := by
    unfold integer
    split_ifs
    · exact ⟨_, _, rfl, .inr rfl⟩
    · cases hdec : decimal m.natAbs with
      | nil => exact absurd hdec (decimal_ne_nil _)
      | cons b bs =>
        refine ⟨b, bs ++ more, rfl, .inl (isDigit_decimal (n := m.natAbs) ?_)⟩
        exact hdec ▸ List.mem_cons_self
  cases n with
  | int m =>
    have hint := hinteger m []
    rwa [List.append_nil] at hint
  | minusZero => exact ⟨0x2D, decimal 0, rfl, .inr rfl⟩
  | dec m e => exact hinteger m _

/-- A value begins with neither a blank nor a closing bracket. -/
theorem write_head (indent : Bytes) (v : Json) (rest : Bytes) :
    ∃ b bs, write style indent v ++ rest = b :: bs ∧ isSpace b = false ∧ b ≠ 0x5D := by
  have hkind {b : UInt8} (h : isDigit b = true ∨ b = 0x2D) : isSpace b = false ∧ b ≠ 0x5D := by
    rcases h with h | rfl
    · simp only [isDigit, Bool.and_eq_true, decide_eq_true_eq, UInt8.le_iff_toNat_le] at h
      have hnat : 0x30 ≤ b.toNat ∧ b.toNat ≤ 0x39 := h
      constructor
      · simp only [isSpace, Bool.or_eq_false_iff, decide_eq_false_iff_not, ← UInt8.toNat_inj]
        simp only [UInt8.reduceToNat]
        omega
      · rintro rfl
        exact absurd hnat.2 (by decide)
    · exact ⟨rfl, by decide⟩
  cases v with
  | null => exact ⟨0x6E, _, rfl, rfl, by decide⟩
  | bool b =>
    cases b with
    | true => exact ⟨0x74, _, rfl, rfl, by decide⟩
    | false => exact ⟨0x66, _, rfl, rfl, by decide⟩
  | num n =>
    obtain ⟨b, bs, hb, hdigit⟩ := number_head n
    refine ⟨b, bs ++ rest, ?_, hkind hdigit⟩
    rw [write, hb, List.cons_append]
  | str s => exact ⟨0x22, _, rfl, rfl, by decide⟩
  | arr vs =>
    cases vs with
    | nil => exact ⟨0x5B, _, rfl, rfl, by decide⟩
    | cons v vs => exact ⟨0x5B, _, rfl, rfl, by decide⟩
  | obj members =>
    cases members with
    | nil => exact ⟨0x7B, _, rfl, rfl, by decide⟩
    | cons member members => exact ⟨0x7B, _, rfl, rfl, by decide⟩

theorem skipSpace_write (indent : Bytes) (v : Json) (rest : Bytes) :
    skipSpace (write style indent v ++ rest) = write style indent v ++ rest := by
  obtain ⟨b, bs, heq, hspace, -⟩ := write_head style indent v rest
  rw [heq, CutOff.skipSpace_of_head hspace]

theorem ends_newline (indent : Bytes) {b : UInt8} (h : isDigit b = false ∧ b ≠ 0x2E ∧ b ≠ 0x65 ∧ b ≠ 0x45)
    (rest : Bytes) : Ends (newline style indent ++ b :: rest) := by
  unfold newline
  split
  · exact ends_cons h rest
  · exact ends_cons (by decide) _

theorem ends_writeItems (indent : Bytes) (vs : List Json) (rest : Bytes) :
    Ends (writeItems style indent vs ++ rest) := by
  cases vs with
  | nil =>
    rw [writeItems, List.append_assoc]
    exact ends_newline style indent (by decide) rest
  | cons v vs => exact ends_cons (by decide) _

theorem ends_writeMembers (indent : Bytes) (members : List (String × Json)) (rest : Bytes) :
    Ends (writeMembers style indent members ++ rest) := by
  cases members with
  | nil =>
    rw [writeMembers, List.append_assoc]
    exact ends_newline style indent (by decide) rest
  | cons member members => exact ends_cons (by decide) _

theorem parseValue_number {n : ℕ} (x : Number) {rest : Bytes} (h : Ends rest) :
    parseValue (n + 1) (number x ++ rest) = some (.num x, rest) := by
  have hparse := parseNumber_number x h
  obtain ⟨b, bs, hb, hdigit⟩ := number_head x
  have hother : ∀ b' : UInt8, isDigit b' = false → b' ≠ 0x2D → ∀ tail, number x ++ rest ≠ b' :: tail := by
    intro b' hb' hminus tail heq
    rw [hb, List.cons_append] at heq
    obtain rfl := (List.cons.inj heq).1
    rcases hdigit with hdigit | hdigit
    · rw [hb'] at hdigit
      cases hdigit
    · exact hminus hdigit
  unfold parseValue
  split
  · rename_i heq
    exact absurd heq (hother _ rfl (by decide) _)
  · rename_i heq
    exact absurd heq (hother _ rfl (by decide) _)
  · rename_i heq
    exact absurd heq (hother _ rfl (by decide) _)
  · rename_i heq
    exact absurd heq (hother _ rfl (by decide) _)
  · rename_i heq
    exact absurd heq (hother _ rfl (by decide) _)
  · rename_i heq
    exact absurd heq (hother _ rfl (by decide) _)
  · rw [hparse]
    rfl

theorem parseValue_quoted {n : ℕ} (s : String) (rest : Bytes) :
    parseValue (n + 1) (quote style s ++ rest) = some (.str s, rest) := by
  rw [quote, List.cons_append, List.append_assoc, List.singleton_append, CutOff.parseValue_quote,
    parseString_spellAll]
  rfl

/-! ## Reading back -/

section Readers

variable {n : ℕ} {bs rest after afterName value afterValue next : Bytes} {v : Json} {vs : List Json} {name : String}
  {members : List (String × Json)}

theorem parseItems_last (hv : parseValue n bs = some (v, rest)) (hclose : skipSpace rest = 0x5D :: after) :
    parseItems (n + 1) bs = some ([v], after) := by
  simp [parseItems, hv, hclose]

theorem parseItems_more (hv : parseValue n bs = some (v, rest)) (hcomma : skipSpace rest = 0x2C :: next)
    (hmore : parseItems n (skipSpace next) = some (vs, after)) : parseItems (n + 1) bs = some (v :: vs, after) := by
  simp [parseItems, hv, hcomma, hmore]

theorem parseMembers_last (hname : parseString bs = some (name, afterName))
    (hcolon : skipSpace afterName = 0x3A :: value) (hv : parseValue n (skipSpace value) = some (v, afterValue))
    (hclose : skipSpace afterValue = 0x7D :: after) :
    parseMembers (n + 1) (0x22 :: bs) = some ([(name, v)], after) := by
  simp [parseMembers, hname, hcolon, hv, hclose]

theorem parseMembers_more (hname : parseString bs = some (name, afterName))
    (hcolon : skipSpace afterName = 0x3A :: value) (hv : parseValue n (skipSpace value) = some (v, afterValue))
    (hcomma : skipSpace afterValue = 0x2C :: next) (hmore : parseMembers n (skipSpace next) = some (members, after)) :
    parseMembers (n + 1) (0x22 :: bs) = some ((name, v) :: members, after) := by
  simp [parseMembers, hname, hcolon, hv, hcomma, hmore]

end Readers

theorem colon_eq (rest : Bytes) : ∃ value, skipSpace (colon style ++ rest) = 0x3A :: value ∧
    skipSpace value = skipSpace rest := by
  unfold colon
  split
  · exact ⟨rest, rfl, rfl⟩
  · exact ⟨0x20 :: rest, rfl, rfl⟩

theorem quote_append (s : String) (rest : Bytes) :
    quote style s ++ rest = 0x22 :: (spellAll style s.toList ++ 0x22 :: rest) := by
  rw [quote, List.cons_append, List.append_assoc, List.singleton_append]

mutual

/-- What is written is read again, whatever follows that does not go on with a number. -/
theorem parseValue_write {indent : Bytes} (hindent : ∀ b ∈ indent, isSpace b = true) {n : ℕ} :
    ∀ (v : Json) {rest : Bytes}, Ends rest → fuel v ≤ n → parseValue n (write style indent v ++ rest) = some (v, rest)
  | .null, rest, _, hn => by
    obtain ⟨n, rfl⟩ : ∃ k, n = k + 1 := ⟨n - 1, by simp only [fuel] at hn; omega⟩
    rfl
  | .bool true, rest, _, hn => by
    obtain ⟨n, rfl⟩ : ∃ k, n = k + 1 := ⟨n - 1, by simp only [fuel] at hn; omega⟩
    rfl
  | .bool false, rest, _, hn => by
    obtain ⟨n, rfl⟩ : ∃ k, n = k + 1 := ⟨n - 1, by simp only [fuel] at hn; omega⟩
    rfl
  | .num x, rest, hrest, hn => by
    obtain ⟨n, rfl⟩ : ∃ k, n = k + 1 := ⟨n - 1, by simp only [fuel] at hn; omega⟩
    rw [write]
    exact parseValue_number x hrest
  | .str s, rest, _, hn => by
    obtain ⟨n, rfl⟩ : ∃ k, n = k + 1 := ⟨n - 1, by simp only [fuel] at hn; omega⟩
    rw [write]
    exact parseValue_quoted style s rest
  | .arr [], rest, _, hn => by
    obtain ⟨n, rfl⟩ : ∃ k, n = k + 1 := ⟨n - 1, by simp only [fuel] at hn; omega⟩
    rfl
  | .obj [], rest, _, hn => by
    obtain ⟨n, rfl⟩ : ∃ k, n = k + 1 := ⟨n - 1, by simp only [fuel] at hn; omega⟩
    rfl
  | .arr (v :: vs), rest, _, hn => by
    rw [fuel] at hn
    obtain ⟨n, rfl⟩ : ∃ k, n = k + 1 := ⟨n - 1, by omega⟩
    have hitems := parseItems_write hindent v vs rest (Nat.le_of_succ_le_succ hn)
    obtain ⟨b, bs, hhead, -, hclose⟩ :=
      write_head style (indent ++ style.gap) v (writeItems style indent vs ++ rest)
    rw [write, List.cons_append, List.append_assoc, List.append_assoc, JsonTokens.parseValue_bracket,
      skipSpace_newline style (indent_blank style hindent), skipSpace_write]
    split
    · rename_i heq
      rw [hhead] at heq
      exact absurd (List.cons.inj heq).1 hclose
    · rw [hitems]
      rfl
  | .obj ((name, v) :: members), rest, _, hn => by
    rw [fuel] at hn
    obtain ⟨n, rfl⟩ : ∃ k, n = k + 1 := ⟨n - 1, by omega⟩
    have hmembers := parseMembers_write hindent name v members rest (Nat.le_of_succ_le_succ hn)
    rw [quote_append] at hmembers
    rw [write, List.cons_append, List.append_assoc, JsonTokens.parseValue_brace,
      skipSpace_newline style (indent_blank style hindent)]
    simp only [List.append_assoc]
    rw [quote_append, CutOff.skipSpace_of_head rfl]
    show Option.map _ (parseMembers n _) = _
    rw [hmembers]
    rfl

theorem parseItems_write {indent : Bytes} (hindent : ∀ b ∈ indent, isSpace b = true) {n : ℕ} :
    ∀ (v : Json) (vs : List Json) (rest : Bytes), fuelItems (v :: vs) ≤ n →
      parseItems n (write style (indent ++ style.gap) v ++ (writeItems style indent vs ++ rest)) =
        some (v :: vs, rest)
  | v, [], rest, hn => by
    rw [fuelItems] at hn
    obtain ⟨n, rfl⟩ : ∃ k, n = k + 1 := ⟨n - 1, by omega⟩
    have hv := parseValue_write (indent_blank style hindent) v (ends_writeItems style indent [] rest) (n := n)
      (by omega)
    refine parseItems_last hv ?_
    rw [writeItems, List.append_assoc, skipSpace_newline style hindent]
    rfl
  | v, w :: vs, rest, hn => by
    rw [fuelItems] at hn
    obtain ⟨n, rfl⟩ : ∃ k, n = k + 1 := ⟨n - 1, by omega⟩
    have hv := parseValue_write (indent_blank style hindent) v (ends_writeItems style indent (w :: vs) rest) (n := n)
      (by omega)
    have hmore := parseItems_write hindent w vs rest (n := n) (by omega)
    rw [writeItems, List.cons_append, List.append_assoc, List.append_assoc] at hv ⊢
    refine parseItems_more hv (CutOff.skipSpace_of_head rfl) ?_
    rw [skipSpace_newline style (indent_blank style hindent), skipSpace_write, hmore]

theorem parseMembers_write {indent : Bytes} (hindent : ∀ b ∈ indent, isSpace b = true) {n : ℕ} :
    ∀ (name : String) (v : Json) (members : List (String × Json)) (rest : Bytes),
      fuelMembers ((name, v) :: members) ≤ n →
      parseMembers n (quote style name ++ (colon style ++ (write style (indent ++ style.gap) v ++
        (writeMembers style indent members ++ rest)))) = some ((name, v) :: members, rest)
  | name, v, [], rest, hn => by
    rw [fuelMembers] at hn
    obtain ⟨n, rfl⟩ : ∃ k, n = k + 1 := ⟨n - 1, by omega⟩
    have hv := parseValue_write (indent_blank style hindent) v (ends_writeMembers style indent [] rest) (n := n)
      (by omega)
    obtain ⟨value, hcolon, hvalue⟩ := colon_eq style
      (write style (indent ++ style.gap) v ++ (writeMembers style indent [] ++ rest))
    rw [quote_append]
    refine parseMembers_last (parseString_spellAll style name _) hcolon (hvalue ▸ skipSpace_write style _ v _ ▸ hv) ?_
    rw [writeMembers, List.append_assoc, skipSpace_newline style hindent]
    rfl
  | name, v, (name', w) :: members, rest, hn => by
    rw [fuelMembers] at hn
    obtain ⟨n, rfl⟩ : ∃ k, n = k + 1 := ⟨n - 1, by omega⟩
    have hv := parseValue_write (indent_blank style hindent) v
      (ends_writeMembers style indent ((name', w) :: members) rest) (n := n) (by omega)
    have hmore := parseMembers_write hindent name' w members rest (n := n) (by omega)
    obtain ⟨value, hcolon, hvalue⟩ := colon_eq style
      (write style (indent ++ style.gap) v ++ (writeMembers style indent ((name', w) :: members) ++ rest))
    rw [quote_append style name]
    have hcomma : skipSpace (writeMembers style indent ((name', w) :: members) ++ rest) = 0x2C ::
        (newline style (indent ++ style.gap) ++ (quote style name' ++ (colon style ++
          (write style (indent ++ style.gap) w ++ (writeMembers style indent members ++ rest))))) := by
      rw [writeMembers, List.cons_append, CutOff.skipSpace_of_head rfl]
      simp only [List.append_assoc]
    rw [← skipSpace_write, ← hvalue] at hv
    refine parseMembers_more (parseString_spellAll style name _) hcolon hv hcomma ?_
    rw [skipSpace_newline style (indent_blank style hindent), quote_append, CutOff.skipSpace_of_head rfl,
      ← quote_append, hmore]

end

/-! ## Whole texts -/

theorem length_number_pos (n : Number) : 0 < (number n).length := by
  obtain ⟨b, bs, hb, -⟩ := number_head n
  rw [hb]
  exact Nat.succ_pos _

mutual

theorem fuel_le_write (indent : Bytes) : ∀ v : Json, fuel v ≤ (write style indent v).length
  | .null => Nat.succ_le_succ (Nat.zero_le _)
  | .bool true => Nat.succ_le_succ (Nat.zero_le _)
  | .bool false => Nat.succ_le_succ (Nat.zero_le _)
  | .num n => by
    rw [write]
    exact length_number_pos n
  | .str s => by
    rw [write, quote, List.length_cons]
    exact Nat.succ_le_succ (Nat.zero_le _)
  | .arr [] => by simp [write, fuel, fuelItems]
  | .obj [] => by simp [write, fuel, fuelMembers]
  | .arr (v :: vs) => by
    have hv := fuel_le_write (indent ++ style.gap) v
    have hvs := fuelItems_le_write indent vs
    rw [write, fuel, fuelItems]
    simp only [List.length_cons, List.length_append]
    omega
  | .obj ((name, v) :: members) => by
    have hv := fuel_le_write (indent ++ style.gap) v
    have hmembers := fuelMembers_le_write indent members
    rw [write, fuel, fuelMembers]
    simp only [List.length_cons, List.length_append, quote]
    omega

theorem fuelItems_le_write (indent : Bytes) : ∀ vs : List Json, fuelItems vs < (writeItems style indent vs).length
  | [] => by simp [writeItems, fuelItems]
  | v :: vs => by
    have hv := fuel_le_write (indent ++ style.gap) v
    have hvs := fuelItems_le_write indent vs
    rw [writeItems, fuelItems]
    simp only [List.length_cons, List.length_append]
    omega

theorem fuelMembers_le_write (indent : Bytes) :
    ∀ members : List (String × Json), fuelMembers members < (writeMembers style indent members).length
  | [] => by simp [writeMembers, fuelMembers]
  | (name, v) :: members => by
    have hv := fuel_le_write (indent ++ style.gap) v
    have hmembers := fuelMembers_le_write indent members
    rw [writeMembers, fuelMembers]
    simp only [List.length_cons, List.length_append]
    omega

end

/-- A document as a text of its own. -/
def document (v : Json) : Bytes := write style [] v

theorem parsePrefix_document (v : Json) {rest : Bytes} (h : Ends rest) :
    parsePrefix (document style v ++ rest) = some (v, rest) := by
  have hfuel := fuel_le_write style [] v
  rw [parsePrefix, document, skipSpace_write]
  exact parseValue_write style (by simp) v h (by rw [List.length_append]; omega)

/-- **What is written is read back.** -/
theorem parse_document (v : Json) : parse (document style v) = some v := by
  have hprefix := parsePrefix_document style v ends_nil
  rw [List.append_nil] at hprefix
  rw [parse, hprefix]
  rfl

/-- The same with a line end behind it, as an encoder for streams leaves it. -/
theorem parse_document_line (v : Json) : parse (document style v ++ [0x0A]) = some v := by
  rw [parse, parsePrefix_document style v (ends_cons (by decide) [])]
  rfl

/-! ## Two writers -/

theorem html_bmp {n : ℕ} (h : n ∈ [0x3C, 0x3E, 0x26, 0x2028, 0x2029]) : n < 0x10000 :=
  (by decide : ∀ n ∈ [0x3C, 0x3E, 0x26, 0x2028, 0x2029], n < 0x10000) n h

/-- Go's `json.Marshal`: no blanks, and what could end a script element is escaped. -/
def marshal : Style where
  escaped c := c.toNat ∈ [0x3C, 0x3E, 0x26, 0x2028, 0x2029]
  escaped_bmp _ h := html_bmp (of_decide_eq_true h)
  gap := []
  gap_blank _ hb := absurd hb List.not_mem_nil

/-- `JSON.stringify` with this many blanks for a level: only what must be is escaped. -/
def stringify (blanks : ℕ) : Style where
  escaped _ := false
  escaped_bmp _ h := by cases h
  gap := List.replicate blanks 0x20
  gap_blank b hb := by
    rw [List.eq_of_mem_replicate hb]
    rfl

end Foundations.JsonWriter
