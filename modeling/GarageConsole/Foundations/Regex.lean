import Mathlib.Data.List.Basic
import Mathlib.Data.Nat.Notation
import Mathlib.Tactic.Common

/-! # Regular expressions over character classes

`Matches r s` says that the whole of `s` is a word of `r`; `accepts` decides it by derivatives, letter by letter
(`accepts_iff`). The alphabet is any type and a class is any predicate on it, so that expressions of different
dialects can be compared.
-/

namespace Foundations

set_option autoImplicit false

inductive Regex (α : Type) where
  | empty
  | eps
  | char (p : α → Bool)
  | seq (r q : Regex α)
  | alt (r q : Regex α)
  | star (r : Regex α)

namespace Regex

variable {α : Type}

inductive Matches : Regex α → List α → Prop where
  | eps : Matches eps []
  | char {p : α → Bool} {c : α} : p c = true → Matches (char p) [c]
  | seq {r q : Regex α} {s t : List α} : Matches r s → Matches q t → Matches (seq r q) (s ++ t)
  | left {r q : Regex α} {s : List α} : Matches r s → Matches (alt r q) s
  | right {r q : Regex α} {s : List α} : Matches q s → Matches (alt r q) s
  | nil {r : Regex α} : Matches (star r) []
  | more {r : Regex α} {s t : List α} : Matches r s → Matches (star r) t → Matches (star r) (s ++ t)

/-- One or more. -/
def plus (r : Regex α) : Regex α := seq r (star r)

/-- Exactly `n`. -/
def times : ℕ → Regex α → Regex α
  | 0, _ => eps
  | n + 1, r => seq r (times n r)

/-! ## Deciding by derivatives -/

def nullable : Regex α → Bool
  | empty => false
  | eps => true
  | char _ => false
  | seq r q => r.nullable && q.nullable
  | alt r q => r.nullable || q.nullable
  | star _ => true

/-- `seq`, without what matches nothing and what matches the empty word only. -/
def mkSeq : Regex α → Regex α → Regex α
  | empty, _ => empty
  | eps, q => q
  | r, q => seq r q

def mkAlt : Regex α → Regex α → Regex α
  | empty, q => q
  | r, empty => r
  | r, q => alt r q

/-- What is left to match after the letter `c`. -/
def deriv (c : α) : Regex α → Regex α
  | empty => empty
  | eps => empty
  | char p => if p c then eps else empty
  | seq r q => if r.nullable then mkAlt (mkSeq (r.deriv c) q) (q.deriv c) else mkSeq (r.deriv c) q
  | alt r q => mkAlt (r.deriv c) (q.deriv c)
  | star r => mkSeq (r.deriv c) (star r)

def accepts (r : Regex α) (s : List α) : Bool := (s.foldl (fun r c => r.deriv c) r).nullable

@[simp] theorem not_matches_empty {s : List α} : ¬Matches empty s := by
  intro h
  cases h

@[simp] theorem matches_eps {s : List α} : Matches eps s ↔ s = [] := by
  constructor
  · intro h
    cases h
    rfl
  · intro h
    subst h
    exact .eps

@[simp] theorem matches_char {p : α → Bool} {s : List α} : Matches (char p) s ↔ ∃ c, s = [c] ∧ p c = true := by
  constructor
  · intro h
    cases h with
    | char hc => exact ⟨_, rfl, hc⟩
  · intro ⟨c, hs, hc⟩
    subst hs
    exact .char hc

@[simp] theorem matches_seq {r q : Regex α} {w : List α} :
    Matches (seq r q) w ↔ ∃ s t, w = s ++ t ∧ Matches r s ∧ Matches q t := by
  constructor
  · intro h
    cases h with
    | seq hr hq => exact ⟨_, _, rfl, hr, hq⟩
  · intro ⟨s, t, hw, hr, hq⟩
    subst hw
    exact .seq hr hq

@[simp] theorem matches_alt {r q : Regex α} {s : List α} : Matches (alt r q) s ↔ Matches r s ∨ Matches q s := by
  constructor
  · intro h
    cases h with
    | left h => exact .inl h
    | right h => exact .inr h
  · intro h
    cases h with
    | inl h => exact .left h
    | inr h => exact .right h

theorem matches_star_cons {r : Regex α} {c : α} {w : List α} :
    Matches (star r) (c :: w) ↔ ∃ s t, w = s ++ t ∧ Matches r (c :: s) ∧ Matches (star r) t := by
  constructor
  · intro h
    generalize hq : star r = q at h
    generalize hv : c :: w = v at h
    induction h with
    | @more q s t hr hrest _ ih =>
      obtain rfl := star.inj hq
      cases s with
      | nil => exact ih rfl hv
      | cons d s =>
        obtain ⟨rfl, rfl⟩ := List.cons.inj hv
        exact ⟨s, t, rfl, hr, hrest⟩
    | nil => cases hv
    | eps => cases hq
    | char => cases hq
    | seq => cases hq
    | left => cases hq
    | right => cases hq
  · intro ⟨s, t, hw, hr, hrest⟩
    subst hw
    exact Matches.more hr hrest

@[simp] theorem matches_mkSeq {r q : Regex α} {w : List α} : Matches (mkSeq r q) w ↔ Matches (seq r q) w := by
  unfold mkSeq
  split <;> simp

@[simp] theorem matches_mkAlt {r q : Regex α} {w : List α} : Matches (mkAlt r q) w ↔ Matches (alt r q) w := by
  unfold mkAlt
  split <;> simp

theorem nullable_iff {r : Regex α} : r.nullable = true ↔ Matches r [] := by
  induction r with
  | empty => simp [nullable]
  | eps => simp [nullable]
  | char p => simp [nullable]
  | seq r q ihr ihq =>
    rw [nullable, Bool.and_eq_true, ihr, ihq, matches_seq]
    constructor
    · intro h
      exact ⟨[], [], rfl, h.1, h.2⟩
    · intro ⟨s, t, hw, hr, hq⟩
      obtain ⟨rfl, rfl⟩ := List.append_eq_nil_iff.mp hw.symm
      exact ⟨hr, hq⟩
  | alt r q ihr ihq => rw [nullable, Bool.or_eq_true, ihr, ihq, matches_alt]
  | star r _ => exact ⟨fun _ => .nil, fun _ => rfl⟩

theorem matches_deriv {r : Regex α} {c : α} {w : List α} : Matches (r.deriv c) w ↔ Matches r (c :: w) := by
  induction r generalizing w with
  | empty => simp [deriv]
  | eps => simp [deriv]
  | char p =>
    by_cases hp : p c = true
    · simp [deriv, hp]
    · simp [deriv, hp]
  | seq r q ihr ihq =>
    have hseq : Matches (mkSeq (r.deriv c) q) w ↔ ∃ s t, w = s ++ t ∧ Matches r (c :: s) ∧ Matches q t := by
      simp only [matches_mkSeq, matches_seq, ihr]
    have hsplit : Matches (seq r q) (c :: w) ↔ (Matches r [] ∧ Matches q (c :: w)) ∨
        ∃ s t, w = s ++ t ∧ Matches r (c :: s) ∧ Matches q t := by
      rw [matches_seq]
      constructor
      · intro ⟨s, t, hw, hr, hq⟩
        cases s with
        | nil => exact .inl ⟨hr, by rw [hw]; exact hq⟩
        | cons d s =>
          obtain ⟨rfl, rfl⟩ := List.cons.inj hw
          exact .inr ⟨s, t, rfl, hr, hq⟩
      · intro h
        rcases h with ⟨hr, hq⟩ | ⟨s, t, hw, hr, hq⟩
        · exact ⟨[], c :: w, rfl, hr, hq⟩
        · exact ⟨c :: s, t, by rw [hw]; rfl, hr, hq⟩
    rw [deriv, hsplit, ← nullable_iff]
    split
    · rename_i hnull
      rw [matches_mkAlt, matches_alt, hseq, ihq, and_iff_right hnull, or_comm]
    · rename_i hnull
      rw [hseq, or_iff_right fun h => hnull h.1]
  | alt r q ihr ihq => rw [deriv, matches_mkAlt, matches_alt, ihr, ihq, matches_alt]
  | star r ih =>
    rw [deriv, matches_mkSeq, matches_seq, matches_star_cons]
    simp only [ih]

theorem accepts_iff {r : Regex α} {s : List α} : r.accepts s = true ↔ Matches r s := by
  induction s generalizing r with
  | nil => exact nullable_iff
  | cons c s ih =>
    rw [accepts, List.foldl_cons, ← accepts, ih]
    exact matches_deriv

/-! ## Repeated classes -/

theorem matches_star_char {p : α → Bool} {s : List α} : Matches (star (char p)) s ↔ ∀ c ∈ s, p c = true := by
  induction s with
  | nil => exact ⟨fun _ c hc => absurd hc List.not_mem_nil, fun _ => .nil⟩
  | cons c s ih =>
    rw [matches_star_cons, List.forall_mem_cons, ← ih]
    constructor
    · intro ⟨t, u, hs, hc, hu⟩
      obtain ⟨d, hd, hp⟩ := matches_char.mp hc
      obtain ⟨rfl, rfl⟩ := List.cons.inj hd
      exact ⟨hp, by rw [hs]; exact hu⟩
    · intro ⟨hc, hs⟩
      exact ⟨[], s, rfl, .char hc, hs⟩

theorem matches_plus_char {p : α → Bool} {s : List α} :
    Matches (plus (char p)) s ↔ s ≠ [] ∧ ∀ c ∈ s, p c = true := by
  rw [plus, matches_seq]
  constructor
  · intro ⟨t, u, hs, ht, hu⟩
    obtain ⟨c, rfl, hc⟩ := matches_char.mp ht
    subst hs
    exact ⟨by simp, List.forall_mem_cons.mpr ⟨hc, matches_star_char.mp hu⟩⟩
  · intro ⟨hne, hall⟩
    obtain ⟨c, s, rfl⟩ := List.exists_cons_of_ne_nil hne
    obtain ⟨hc, hs⟩ := List.forall_mem_cons.mp hall
    exact ⟨[c], s, rfl, .char hc, matches_star_char.mpr hs⟩

theorem matches_times_char {p : α → Bool} {n : ℕ} {s : List α} :
    Matches (times n (char p)) s ↔ s.length = n ∧ ∀ c ∈ s, p c = true := by
  induction n generalizing s with
  | zero =>
    rw [times, matches_eps, List.length_eq_zero_iff]
    refine ⟨fun h => ⟨h, fun c hc => ?_⟩, fun h => h.1⟩
    rw [h] at hc
    exact absurd hc List.not_mem_nil
  | succ n ih =>
    rw [times, matches_seq]
    constructor
    · intro ⟨t, u, hs, ht, hu⟩
      obtain ⟨c, rfl, hc⟩ := matches_char.mp ht
      obtain ⟨hlen, hall⟩ := ih.mp hu
      subst hs
      exact ⟨by simp [hlen], List.forall_mem_cons.mpr ⟨hc, hall⟩⟩
    · intro ⟨hlen, hall⟩
      obtain ⟨c, s, rfl⟩ := List.exists_cons_of_length_eq_add_one hlen
      obtain ⟨hc, hs⟩ := List.forall_mem_cons.mp hall
      exact ⟨[c], s, rfl, .char hc, ih.mpr ⟨by simpa using hlen, hs⟩⟩

end Regex

end Foundations
