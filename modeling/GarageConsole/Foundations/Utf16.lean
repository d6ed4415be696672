import Mathlib.Data.List.DropRight
import Mathlib.Data.List.Lex
import Mathlib.Data.Nat.Notation
import Mathlib.Tactic.Common

/-! # Strings of 16-bit code units

A string is a sequence of code units, which need not be well-formed UTF-16. `utf16` is the encoding of a
literal; `decode` reads the characters, with U+FFFD for a surrogate that stands alone. Strings are ordered by
their code units; `trim` takes white space and line ends off both ends.
-/

namespace Foundations.Utf16

set_option autoImplicit false

abbrev Units := List UInt16

def encodeChar (c : Char) : Units :=
  if c.toNat < 0x10000 then [UInt16.ofNat c.toNat]
  else [UInt16.ofNat (0xD800 + (c.toNat - 0x10000) / 0x400), UInt16.ofNat (0xDC00 + (c.toNat - 0x10000) % 0x400)]

def encode (cs : List Char) : Units := cs.flatMap encodeChar

def utf16 (s : String) : Units := encode s.toList

/-! ## Decoding -/

def isHigh (u : UInt16) : Bool := 0xD800 ≤ u.toNat && u.toNat ≤ 0xDBFF

def isLow (u : UInt16) : Bool := 0xDC00 ≤ u.toNat && u.toNat ≤ 0xDFFF

/-- A code unit by itself. -/
def decodeOne (u : UInt16) : Char := if isHigh u || isLow u then '\uFFFD' else Char.ofNat u.toNat

/-- The characters, with U+FFFD for a surrogate that stands alone. -/
def decode : Units → List Char
  | [] => []
  | [u] => [decodeOne u]
  | u :: v :: rest =>
    if isHigh u && isLow v then Char.ofNat (0x10000 + (u.toNat - 0xD800) * 0x400 + (v.toNat - 0xDC00)) :: decode rest
    else decodeOne u :: decode (v :: rest)

/-- The characters as a string. -/
def asText (s : Units) : String := String.ofList (decode s)

theorem decode_cons {u : UInt16} (hu : isHigh u = false) (rest : Units) :
    decode (u :: rest) = decodeOne u :: decode rest := by
  cases rest with
  | nil => rfl
  | cons v rest => rw [decode, hu, Bool.false_and, if_neg Bool.false_ne_true]

theorem toNat_ofNat {n : ℕ} (h : n < 0x10000) : (UInt16.ofNat n).toNat = n := by
  rw [UInt16.toNat_ofNat']
  exact Nat.mod_eq_of_lt h

theorem decode_encodeChar (c : Char) (rest : Units) : decode (encodeChar c ++ rest) = c :: decode rest := by
  have hvalid : c.toNat < 0xD800 ∨ (0xDFFF < c.toNat ∧ c.toNat < 0x110000) := c.valid
  unfold encodeChar
  split
  · rename_i hsmall
    have hu := toNat_ofNat hsmall
    have hhigh : isHigh (UInt16.ofNat c.toNat) = false := by
      simp only [isHigh, hu, Bool.and_eq_false_iff, decide_eq_false_iff_not]
      omega
    have hlow : isLow (UInt16.ofNat c.toNat) = false := by
      simp only [isLow, hu, Bool.and_eq_false_iff, decide_eq_false_iff_not]
      omega
    rw [List.singleton_append, decode_cons hhigh, decodeOne, hhigh, hlow, hu]
    simp [Char.ofNat_toNat]
  · rename_i hlarge
    have hu := toNat_ofNat (show 0xD800 + (c.toNat - 0x10000) / 0x400 < 0x10000 by omega)
    have hv := toNat_ofNat (show 0xDC00 + (c.toNat - 0x10000) % 0x400 < 0x10000 by omega)
    have hhigh : isHigh (UInt16.ofNat (0xD800 + (c.toNat - 0x10000) / 0x400)) = true := by
      simp only [isHigh, hu, Bool.and_eq_true, decide_eq_true_eq]
      omega
    have hlow : isLow (UInt16.ofNat (0xDC00 + (c.toNat - 0x10000) % 0x400)) = true := by
      simp only [isLow, hv, Bool.and_eq_true, decide_eq_true_eq]
      omega
    have hsum : 0x10000 + (0xD800 + (c.toNat - 0x10000) / 0x400 - 0xD800) * 0x400 +
        (0xDC00 + (c.toNat - 0x10000) % 0x400 - 0xDC00) = c.toNat := by omega
    rw [List.cons_append, List.cons_append, List.nil_append, decode, hhigh, hlow, Bool.true_and, if_pos rfl, hu, hv,
      hsum, Char.ofNat_toNat]

theorem decode_encode (cs : List Char) : decode (encode cs) = cs := by
  induction cs with
  | nil => rfl
  | cons c cs ih => rw [encode, List.flatMap_cons, decode_encodeChar, ← encode, ih]

theorem encode_injective : Function.Injective encode := fun a b h => by
  rw [← decode_encode a, h, decode_encode]

/-- A code unit that is no surrogate is a character of its own, wherever it stands. -/
theorem decode_append_cons {v : UInt16} (hhigh : isHigh v = false) (hlow : isLow v = false) (a b : Units) :
    decode (a ++ v :: b) = decode a ++ Char.ofNat v.toNat :: decode b := by
  induction a using decode.induct with
  | case1 => rw [List.nil_append, decode_cons hhigh, decodeOne, hhigh, hlow]; rfl
  | case2 u =>
    rw [List.singleton_append, decode, decode, hlow, Bool.and_false, if_neg Bool.false_ne_true, decode_cons hhigh]
    simp [decodeOne, hhigh, hlow]
  | case3 u w rest hpair ih =>
    rw [List.cons_append, List.cons_append, decode, if_pos hpair, ih, decode, if_pos hpair, List.cons_append]
  | case4 u w rest hpair ih =>
    rw [List.cons_append, List.cons_append, decode, if_neg hpair, ← List.cons_append, ih, decode, if_neg hpair,
      List.cons_append]

theorem decode_eq_nil {s : Units} : decode s = [] ↔ s = [] := by
  cases s using decode.induct with
  | case1 => simp [decode]
  | case2 u => simp [decode]
  | case3 u w rest hpair _ => simp [decode, hpair]
  | case4 u w rest hpair _ => simp [decode, hpair]

theorem toNat_charOfNat {n : ℕ} (h : n.isValidChar) : (Char.ofNat n).toNat = n := by
  rw [Char.ofNat, dif_pos h]
  rfl

/-- A character of ASCII comes from the code unit of the same value. -/
theorem mem_decode {s : Units} {c : Char} (hc : c.toNat < 0x80) (h : c ∈ decode s) :
    ∃ u ∈ s, u.toNat = c.toNat := by
  have hone {u : UInt16} (hu : c = decodeOne u) : u.toNat = c.toNat := by
    rw [decodeOne] at hu
    split at hu
    · rw [hu] at hc
      exact absurd hc (by decide)
    · rename_i hsurrogate
      rw [hu]
      have hscalar : u.toNat.isValidChar := by
        have := u.toNat_lt
        simp only [isHigh, isLow, Bool.or_eq_true, Bool.and_eq_true, decide_eq_true_eq] at hsurrogate
        simp only [Nat.isValidChar]
        omega
      rw [toNat_charOfNat hscalar]
  induction s using decode.induct with
  | case1 => exact absurd h List.not_mem_nil
  | case2 u => exact ⟨u, List.mem_singleton_self u, hone (List.mem_singleton.mp h)⟩
  | case3 u w rest hpair ih =>
    rw [decode, if_pos hpair, List.mem_cons] at h
    rcases h with h | h
    · have hpair' := hpair
      simp only [isHigh, isLow, Bool.and_eq_true, decide_eq_true_eq] at hpair'
      have hscalar : (0x10000 + (u.toNat - 0xD800) * 0x400 + (w.toNat - 0xDC00)).isValidChar := by
        simp only [Nat.isValidChar]
        omega
      rw [h, toNat_charOfNat hscalar] at hc
      omega
    · obtain ⟨v, hv, heq⟩ := ih h
      exact ⟨v, List.mem_cons_of_mem _ (List.mem_cons_of_mem _ hv), heq⟩
  | case4 u w rest hpair ih =>
    rw [decode, if_neg hpair, List.mem_cons] at h
    rcases h with h | h
    · exact ⟨u, List.mem_cons_self, hone h⟩
    · obtain ⟨v, hv, heq⟩ := ih h
      exact ⟨v, List.mem_cons_of_mem _ hv, heq⟩

/-- Code units that are no surrogates are read one by one. -/
theorem decode_of_plain {s : Units} (h : ∀ u ∈ s, isHigh u = false ∧ isLow u = false) :
    decode s = s.map fun u => Char.ofNat u.toNat := by
  induction s with
  | nil => rfl
  | cons u s ih =>
    obtain ⟨hhigh, hlow⟩ := h u List.mem_cons_self
    rw [decode_cons hhigh, ih fun v hv => h v (List.mem_cons_of_mem u hv), decodeOne, hhigh, hlow]
    rfl

theorem mem_encode {u : UInt16} {cs : List Char} : u ∈ encode cs ↔ ∃ c ∈ cs, u ∈ encodeChar c := List.mem_flatMap

/-- A code unit of ASCII is the character of the same value. -/
theorem mem_encodeChar {u : UInt16} {c : Char} (hu : u.toNat < 0x80) (h : u ∈ encodeChar c) : c.toNat = u.toNat := by
  unfold encodeChar at h
  split at h
  · rename_i hsmall
    rw [List.mem_singleton.mp h, toNat_ofNat hsmall]
  · have hlt := c.valid
    have hscalar : c.toNat < 0x110000 := hlt.elim (fun h => by simp only [Char.toNat]; omega) fun h => h.2
    rw [List.mem_cons, List.mem_singleton] at h
    rcases h with h | h
    · rw [h, toNat_ofNat (by omega)] at hu
      omega
    · rw [h, toNat_ofNat (by omega)] at hu
      omega

theorem encode_of_small {cs : List Char} (h : ∀ c ∈ cs, c.toNat < 0x10000) :
    encode cs = cs.map fun c => UInt16.ofNat c.toNat := by
  induction cs with
  | nil => rfl
  | cons c cs ih =>
    rw [encode, List.flatMap_cons, ← encode, ih fun d hd => h d (List.mem_cons_of_mem c hd), encodeChar,
      if_pos (h c List.mem_cons_self)]
    rfl

/-! ## Order -/

/-- The values of the code units: strings are ordered by them, lexicographically. -/
def codes (s : Units) : List ℕ := s.map UInt16.toNat

def unitsLE (s t : Units) : Bool := codes s ≤ codes t

theorem codes_injective : Function.Injective codes :=
  List.map_injective_iff.mpr fun _ _ h => UInt16.toNat_inj.mp h

theorem unitsLE_trans (a b c : Units) (hab : unitsLE a b = true) (hbc : unitsLE b c = true) :
    unitsLE a c = true := by
  simp only [unitsLE, decide_eq_true_eq] at hab hbc ⊢
  exact hab.trans hbc

theorem unitsLE_total (a b : Units) : (unitsLE a b || unitsLE b a) = true := by
  simp only [unitsLE, Bool.or_eq_true, decide_eq_true_eq]
  exact le_total _ _

theorem unitsLE_antisymm {a b : Units} (hab : unitsLE a b = true) (hba : unitsLE b a = true) : a = b := by
  simp only [unitsLE, decide_eq_true_eq] at hab hba
  exact codes_injective (hab.antisymm hba)

/-- Lists of the same strings are sorted alike. -/
theorem mergeSort_congr {l l' : List Units} (h : l.Perm l') : l.mergeSort unitsLE = l'.mergeSort unitsLE := by
  have hperm : (l.mergeSort unitsLE).Perm (l'.mergeSort unitsLE) :=
    (List.mergeSort_perm l _).trans (h.trans (List.mergeSort_perm l' _).symm)
  have hsorted (l : List Units) : (l.mergeSort unitsLE).Pairwise fun a b => unitsLE a b = true :=
    List.pairwise_mergeSort unitsLE_trans unitsLE_total l
  exact hperm.eq_of_pairwise (fun _ _ _ _ => unitsLE_antisymm) (hsorted l) (hsorted l')

/-! ## White space -/

/-- White space and line ends, what `\s` matches and `trim` removes. -/
def isSpace (u : UInt16) : Bool :=
  u.toNat ∈ [0x09, 0x0A, 0x0B, 0x0C, 0x0D, 0x20, 0xA0, 0x1680, 0x2028, 0x2029, 0x202F, 0x205F, 0x3000, 0xFEFF] ||
    (0x2000 ≤ u.toNat && u.toNat ≤ 0x200A)

def trim (s : Units) : Units := (s.dropWhile isSpace).rdropWhile isSpace

example : trim (utf16 "\n a b \u00A0\u3000") = utf16 "a b" := by decide

theorem trim_subset (s : Units) : trim s ⊆ s :=
  ((List.rdropWhile_prefix isSpace _).sublist.trans (List.dropWhile_sublist isSpace)).subset

theorem trim_eq_nil {s : Units} : trim s = [] ↔ ∀ u ∈ s, isSpace u = true := by
  rw [trim, List.rdropWhile_eq_nil_iff]
  constructor
  · intro h u hu
    rw [← List.takeWhile_append_dropWhile (p := isSpace) (l := s), List.mem_append] at hu
    cases hu with
    | inl hu => exact List.mem_takeWhile_imp hu
    | inr hu => exact h u hu
  · intro h u hu
    exact h u ((List.dropWhile_sublist isSpace).subset hu)

theorem trim_eq_self {s : Units} :
    trim s = s ↔ (∀ h : s ≠ [], isSpace (s.head h) = false) ∧ ∀ h : s ≠ [], isSpace (s.getLast h) = false := by
  constructor
  · intro h
    have hdrop : s.dropWhile isSpace = s := by
      have hle := (List.rdropWhile_prefix isSpace (s.dropWhile isSpace)).length_le
      rw [← trim, h] at hle
      exact (List.dropWhile_sublist isSpace).eq_of_length_le hle
    rw [trim, hdrop] at h
    refine ⟨fun hne => ?_, fun hne => ?_⟩
    · have := List.dropWhile_eq_self_iff.mp hdrop (List.length_pos_of_ne_nil hne)
      simpa [List.head_eq_getElem] using this
    · simpa using List.rdropWhile_eq_self_iff.mp h hne
  · intro ⟨hhead, hlast⟩
    have hdrop : s.dropWhile isSpace = s := by
      rw [List.dropWhile_eq_self_iff]
      intro hpos
      have := hhead (List.ne_nil_of_length_pos hpos)
      simpa [List.head_eq_getElem] using this
    rw [trim, hdrop, List.rdropWhile_eq_self_iff]
    intro hne
    simp [hlast hne]

theorem trim_trim (s : Units) : trim (trim s) = trim s := by
  have hidem : (trim s).rdropWhile isSpace = trim s := List.rdropWhile_idempotent isSpace _
  have hdrop : (trim s).dropWhile isSpace = trim s := by
    rw [List.dropWhile_eq_self_iff]
    intro hpos
    have hpre : trim s <+: s.dropWhile isSpace := List.rdropWhile_prefix isSpace _
    have hlen : 0 < (s.dropWhile isSpace).length := hpos.trans_le hpre.length_le
    have hfirst : (trim s)[0] = (s.dropWhile isSpace)[0] := hpre.getElem hpos
    rw [hfirst]
    exact List.dropWhile_get_zero_not isSpace s hlen
  rw [trim, hdrop, hidem]

theorem trim_cons_space {u : UInt16} (hu : isSpace u = true) (s : Units) : trim (u :: s) = trim s := by
  rw [trim, List.dropWhile_cons_of_pos hu, ← trim]

end Foundations.Utf16
