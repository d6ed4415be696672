import Mathlib.Data.List.Basic
import Mathlib.Data.List.TakeWhile
import Mathlib.Data.Nat.Notation
import Mathlib.Tactic.Common

/-! # Byte strings and UTF-8

A string of the modelled languages is a sequence of bytes. `bytes` is the encoding of a literal;
`decodeRune` reads one character the way RFC 3629 decoders with replacement do: a byte that starts
no well-formed sequence is one U+FFFD, consuming that byte only.
-/

namespace Foundations.Text

set_option autoImplicit false

abbrev Bytes := List UInt8

/-- The UTF-8 encoding of a string. -/
def bytes (s : String) : Bytes := s.toList.flatMap String.utf8EncodeChar

def replacementChar : Char := '\uFFFD'

def isContinuation (b : UInt8) : Bool := 0x80 ≤ b && b ≤ 0xBF

def payload (b : UInt8) : ℕ := b.toNat % 64

/-- The bounds of the second byte after the first one; `none` where no sequence starts so. The
bounds rule out overlong forms, surrogates and code points above U+10FFFF. -/
def secondByteRange (b₀ : UInt8) : Option (UInt8 × UInt8) :=
  if 0xC2 ≤ b₀ && b₀ ≤ 0xDF then some (0x80, 0xBF)
  else if b₀ = 0xE0 then some (0xA0, 0xBF)
  else if b₀ = 0xED then some (0x80, 0x9F)
  else if 0xE1 ≤ b₀ && b₀ ≤ 0xEF then some (0x80, 0xBF)
  else if b₀ = 0xF0 then some (0x90, 0xBF)
  else if b₀ = 0xF4 then some (0x80, 0x8F)
  else if 0xF1 ≤ b₀ && b₀ ≤ 0xF3 then some (0x80, 0xBF)
  else none

def decodeMultibyte (b₀ : UInt8) (rest : Bytes) : Option (Char × Bytes) :=
  match secondByteRange b₀, rest with
  | some (lo, hi), b₁ :: r₁ =>
    if ¬(lo ≤ b₁ ∧ b₁ ≤ hi) then none
    else if b₀ < 0xE0 then some (Char.ofNat (b₀.toNat % 32 * 64 + payload b₁), r₁)
    else match r₁ with
      | b₂ :: r₂ =>
        if ¬isContinuation b₂ then none
        else if b₀ < 0xF0 then
          some (Char.ofNat ((b₀.toNat % 16 * 64 + payload b₁) * 64 + payload b₂), r₂)
        else match r₂ with
          | b₃ :: r₃ =>
            if ¬isContinuation b₃ then none
            else some (Char.ofNat (((b₀.toNat % 8 * 64 + payload b₁) * 64 + payload b₂) * 64 + payload b₃), r₃)
          | [] => none
      | [] => none
  | _, _ => none

/-- The first character and what follows it (`utf8.DecodeRune`). -/
def decodeRune : Bytes → Option (Char × Bytes)
  | [] => none
  | b₀ :: rest =>
    if b₀ < 0x80 then some (Char.ofNat b₀.toNat, rest)
    else (decodeMultibyte b₀ rest).getD (replacementChar, rest)

def decodeRunes : ℕ → Bytes → List Char
  | 0, _ => []
  | fuel + 1, bs =>
    match decodeRune bs with
    | none => []
    | some (c, rest) => c :: decodeRunes fuel rest

/-- The text of a byte string, with U+FFFD where it is not well formed. -/
def toText (bs : Bytes) : String := String.ofList (decodeRunes bs.length bs)

/-! ## White space -/

/-- The last character and what precedes it (`utf8.DecodeLastRune`): the sequence that starts at the
last byte that is not a continuation byte, if it ends the string. -/
def decodeLastRune (bs : Bytes) : Option (Char × Bytes) :=
  if bs = [] then none
  else
    let starts := [1, 2, 3, 4].find? fun k => k ≤ bs.length && (bs.drop (bs.length - k)).head?.any (!isContinuation ·)
    match starts with
    | some k =>
      match decodeRune (bs.drop (bs.length - k)) with
      | some (c, []) => some (c, bs.take (bs.length - k))
      | _ => some (replacementChar, bs.take (bs.length - 1))
    | none => some (replacementChar, bs.take (bs.length - 1))

/-- `unicode.IsSpace`. -/
def isSpaceRune (c : Char) : Bool :=
  c.toNat ∈ [0x09, 0x0A, 0x0B, 0x0C, 0x0D, 0x20, 0x85, 0xA0, 0x1680, 0x2028, 0x2029, 0x202F, 0x205F, 0x3000] ||
    (0x2000 ≤ c.toNat && c.toNat ≤ 0x200A)

def trimLeft : ℕ → Bytes → Bytes
  | 0, bs => bs
  | fuel + 1, bs =>
    match decodeRune bs with
    | some (c, rest) => if isSpaceRune c then trimLeft fuel rest else bs
    | none => bs

def trimRight : ℕ → Bytes → Bytes
  | 0, bs => bs
  | fuel + 1, bs =>
    match decodeLastRune bs with
    | some (c, rest) => if isSpaceRune c then trimRight fuel rest else bs
    | none => bs

/-- `bytes.TrimSpace`. -/
def trimSpace (bs : Bytes) : Bytes := trimRight bs.length (trimLeft bs.length bs)

example : trimSpace (bytes "\n a b \u00A0\u3000") = bytes "a b" := by decide
example : toText (bytes "保留 ok") = "保留 ok" := by decide
example : toText [0x61, 0xE6, 0x97, 0x62] = "a\uFFFD\uFFFDb" := by decide

/-! ## Up to a byte -/

theorem takeWhile_ne {c : UInt8} {l : Bytes} (h : c ∉ l) : l.takeWhile (· ≠ c) = l := by
  rw [List.takeWhile_eq_self_iff]
  intro b hb
  exact decide_eq_true fun hbc => h (hbc ▸ hb)

theorem takeWhile_ne_append {c : UInt8} {l : Bytes} (h : c ∉ l) (r : Bytes) :
    (l ++ r).takeWhile (· ≠ c) = l ++ r.takeWhile (· ≠ c) :=
  List.takeWhile_append_of_pos fun _ hb => decide_eq_true fun hbc => h (hbc ▸ hb)

theorem takeWhile_ne_append_cons {c : UInt8} {l : Bytes} (h : c ∉ l) (r : Bytes) :
    (l ++ c :: r).takeWhile (· ≠ c) = l := by
  rw [takeWhile_ne_append h, List.takeWhile_cons_of_neg (by simp), List.append_nil]

theorem dropWhile_ne_append {c : UInt8} {l : Bytes} (h : c ∉ l) (r : Bytes) :
    (l ++ r).dropWhile (· ≠ c) = r.dropWhile (· ≠ c) :=
  List.dropWhile_append_of_pos fun _ hb => decide_eq_true fun hbc => h (hbc ▸ hb)

/-- What follows the last `c`: everything if there is none. -/
def afterLast (c : UInt8) (l : Bytes) : Bytes := (l.reverse.takeWhile (· ≠ c)).reverse

theorem afterLast_of_not_mem {c : UInt8} {l : Bytes} (h : c ∉ l) : afterLast c l = l := by
  rw [afterLast, takeWhile_ne (fun hc => h (List.mem_reverse.mp hc)), List.reverse_reverse]

theorem afterLast_append_cons {c : UInt8} {r : Bytes} (h : c ∉ r) (l : Bytes) : afterLast c (l ++ c :: r) = r := by
  have hr : c ∉ r.reverse := fun hc => h (List.mem_reverse.mp hc)
  rw [afterLast, List.reverse_append, List.reverse_cons, List.append_assoc, List.singleton_append,
    takeWhile_ne_append_cons hr, List.reverse_reverse]

theorem exists_eq_append_afterLast {c : UInt8} {l : Bytes} (h : c ∈ l) : ∃ a, l = a ++ c :: afterLast c l := by
  obtain ⟨a, r, rfl, hr⟩ : ∃ a r, l = a ++ c :: r ∧ c ∉ r := by
    induction l with
    | nil => exact absurd h List.not_mem_nil
    | cons b l ih =>
      by_cases hl : c ∈ l
      · obtain ⟨a, r, rfl, hr⟩ := ih hl
        exact ⟨b :: a, r, rfl, hr⟩
      · rcases List.mem_cons.mp h with rfl | h
        · exact ⟨[], l, rfl, hl⟩
        · exact absurd h hl
  exact ⟨a, by rw [afterLast_append_cons hr]⟩

theorem not_mem_takeWhile_ne (c : UInt8) (s : Bytes) : c ∉ s.takeWhile (· ≠ c) := by
  intro h
  have hne := List.mem_takeWhile_imp (p := (· ≠ c)) h
  exact of_decide_eq_true hne rfl

end Foundations.Text
