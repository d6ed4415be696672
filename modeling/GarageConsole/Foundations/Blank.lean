import GarageConsole.Foundations.Ascii
import GarageConsole.Foundations.Json

/-! # Blank texts

Trimming takes off white space of any kind, and before a JSON value only four characters may stand. A text that
trimming leaves nothing of holds no value all the same (`parse_blank`): an ASCII character that is no white space stays.
-/

namespace Foundations.Text

set_option autoImplicit false

/-- An ASCII character other than white space. -/
def Visible (b : UInt8) : Prop := b.toNat < 128 ∧ isSpaceRune (Char.ofNat b.toNat) = false

theorem mem_of_decodeMultibyte {b₀ b : UInt8} {bs rest : Bytes} {c : Char}
    (h : decodeMultibyte b₀ bs = some (c, rest)) (hb : b.toNat < 128) (hmem : b ∈ bs) : b ∈ rest := by
  have hcontinuation {d : UInt8} (hd : isContinuation d = true) : b ≠ d := by
    rintro rfl
    simp only [isContinuation, Bool.and_eq_true, decide_eq_true_eq, UInt8.le_iff_toNat_le, UInt8.reduceToNat] at hd
    omega
  unfold decodeMultibyte at h
  split at h
  · rename_i lo hi b₁ r₁ hrange
    have hbounds := secondByteRange_bounds hrange
    split at h
    · cases h
    · rename_i hin
      have hne : b ≠ b₁ := by
        rintro rfl
        simp only [UInt8.le_iff_toNat_le, not_not] at hin
        omega
      have hr₁ := List.mem_of_ne_of_mem hne hmem
      split at h
      · obtain ⟨-, rfl⟩ := Prod.mk.inj (Option.some.inj h)
        exact hr₁
      · split at h
        · rename_i b₂ r₂
          split at h
          · cases h
          · rename_i h₂
            have hr₂ := List.mem_of_ne_of_mem (hcontinuation (not_not.mp h₂)) hr₁
            split at h
            · obtain ⟨-, rfl⟩ := Prod.mk.inj (Option.some.inj h)
              exact hr₂
            · split at h
              · split at h
                · cases h
                · rename_i h₃
                  obtain ⟨-, rfl⟩ := Prod.mk.inj (Option.some.inj h)
                  exact List.mem_of_ne_of_mem (hcontinuation (not_not.mp h₃)) hr₂
              · cases h
        · cases h
  · cases h

/-- A character that is read is not made of this byte, unless it is this byte. -/
theorem mem_of_decodeRune {b : UInt8} {bs rest : Bytes} {c : Char} (h : decodeRune bs = some (c, rest))
    (hb : b.toNat < 128) (hmem : b ∈ bs) : c = Char.ofNat b.toNat ∨ b ∈ rest := by
  cases bs with
  | nil => exact absurd hmem List.not_mem_nil
  | cons b₀ bs =>
    rw [decodeRune] at h
    rcases List.mem_cons.mp hmem with rfl | hmem
    · rw [if_pos (UInt8.lt_iff_toNat_lt.mpr hb)] at h
      exact .inl (Prod.mk.inj (Option.some.inj h)).1.symm
    · right
      split_ifs at h
      · obtain ⟨-, rfl⟩ := Prod.mk.inj (Option.some.inj h)
        exact hmem
      · cases hmulti : decodeMultibyte b₀ bs with
        | none =>
          rw [hmulti] at h
          obtain ⟨-, rfl⟩ := Prod.mk.inj (Option.some.inj h)
          exact hmem
        | some out =>
          rw [hmulti] at h
          obtain rfl := Option.some.inj h
          exact mem_of_decodeMultibyte hmulti hb hmem

theorem mem_trimLeft {b : UInt8} (hb : Visible b) : ∀ {fuel : ℕ} {bs : Bytes}, b ∈ bs → b ∈ trimLeft fuel bs
  | 0, _, hmem => hmem
  | fuel + 1, bs, hmem => by
    rw [trimLeft]
    cases hrune : decodeRune bs with
    | none => exact hmem
    | some out =>
      obtain ⟨c, rest⟩ := out
      dsimp only
      split_ifs with hspace
      · refine mem_trimLeft hb ((mem_of_decodeRune hrune hb.1 hmem).resolve_left ?_)
        rintro rfl
        exact absurd hspace (by rw [hb.2]; decide)
      · exact hmem

theorem mem_of_decodeLastRune {b : UInt8} (hb : Visible b) {bs rest : Bytes} {c : Char}
    (h : decodeLastRune bs = some (c, rest)) (hspace : isSpaceRune c = true) (hmem : b ∈ bs) : b ∈ rest := by
  have hreplaced : isSpaceRune replacementChar = false := by decide
  unfold decodeLastRune at h
  split_ifs at h
  dsimp only at h
  split at h
  · rename_i k _
    split at h
    · rename_i d hrune
      obtain ⟨rfl, rfl⟩ := Prod.mk.inj (Option.some.inj h)
      rw [← List.take_append_drop (bs.length - k) bs] at hmem
      refine (List.mem_append.mp hmem).resolve_right fun hdrop => ?_
      rcases mem_of_decodeRune hrune hb.1 hdrop with rfl | hnil
      · exact absurd hspace (by rw [hb.2]; decide)
      · exact absurd hnil List.not_mem_nil
    · obtain ⟨rfl, -⟩ := Prod.mk.inj (Option.some.inj h)
      exact absurd hspace (by rw [hreplaced]; decide)
  · obtain ⟨rfl, -⟩ := Prod.mk.inj (Option.some.inj h)
    exact absurd hspace (by rw [hreplaced]; decide)

theorem mem_trimRight {b : UInt8} (hb : Visible b) : ∀ {fuel : ℕ} {bs : Bytes}, b ∈ bs → b ∈ trimRight fuel bs
  | 0, _, hmem => hmem
  | fuel + 1, bs, hmem => by
    rw [trimRight]
    cases hrune : decodeLastRune bs with
    | none => exact hmem
    | some out =>
      obtain ⟨c, rest⟩ := out
      dsimp only
      split_ifs with hspace
      · exact mem_trimRight hb (mem_of_decodeLastRune hb hrune hspace hmem)
      · exact hmem

theorem mem_trimSpace {b : UInt8} (hb : Visible b) {bs : Bytes} (hmem : b ∈ bs) : b ∈ trimSpace bs :=
  mem_trimRight hb (mem_trimLeft hb hmem)

end Foundations.Text

namespace Foundations.Json

open Text

set_option autoImplicit false

theorem visible_of_isDigit {b : UInt8} (h : isDigit b = true) : Visible b := by
  simp only [isDigit, Bool.and_eq_true, decide_eq_true_eq, UInt8.le_iff_toNat_le, UInt8.reduceToNat] at h
  refine ⟨by omega, ?_⟩
  rw [isSpaceRune, toNat_ofNat_of_lt (by omega), Bool.or_eq_false_iff, decide_eq_false_iff_not, Bool.and_eq_false_iff,
    decide_eq_false_iff_not, decide_eq_false_iff_not]
  simp only [List.mem_cons, List.not_mem_nil, or_false]
  omega

theorem visible_of_number {bs rest : Bytes} {n : Number} (h : parseNumber bs = some (n, rest)) :
    ∃ b ∈ bs, Visible b := by
  have hdigits {ds : Bytes} {out : Bytes × Bytes} (h : scanDigits ds = some out) : ∃ b ∈ ds, Visible b := by
    unfold scanDigits at h
    split_ifs at h with hempty
    obtain ⟨b, hb⟩ := List.exists_mem_of_ne_nil _ (mt List.isEmpty_iff.mpr hempty)
    exact ⟨b, (List.takeWhile_sublist _).subset hb, visible_of_isDigit (List.mem_takeWhile_imp hb)⟩
  have hwhole {sign : ℤ} {ds : Bytes} {out : Number × Bytes} (h : parseUnsigned sign ds = some out) :
      ∃ b ∈ ds, Visible b := by
    obtain ⟨whole, hscan, -⟩ := Option.bind_eq_some_iff.mp h
    unfold scanIntPart at hscan
    split at hscan
    · exact ⟨0x30, List.mem_cons_self, visible_of_isDigit rfl⟩
    · exact hdigits hscan
  unfold parseNumber at h
  split at h
  · obtain ⟨out, hout, -⟩ := Option.map_eq_some_iff.mp h
    obtain ⟨b, hb, hvisible⟩ := hwhole hout
    exact ⟨b, List.mem_cons_of_mem _ hb, hvisible⟩
  · exact hwhole h

theorem visible_of_value {fuel : ℕ} {bs rest : Bytes} {v : Json} (h : parseValue fuel bs = some (v, rest)) :
    ∃ b ∈ bs, Visible b := by
  cases fuel with
  | zero => rw [parseValue] at h; cases h
  | succ fuel =>
    rw [parseValue.eq_def] at h
    dsimp only at h
    split at h
    · exact ⟨_, List.mem_cons_self, by decide, by decide⟩
    · exact ⟨_, List.mem_cons_self, by decide, by decide⟩
    · exact ⟨_, List.mem_cons_self, by decide, by decide⟩
    · exact ⟨_, List.mem_cons_self, by decide, by decide⟩
    · exact ⟨_, List.mem_cons_self, by decide, by decide⟩
    · exact ⟨_, List.mem_cons_self, by decide, by decide⟩
    · obtain ⟨out, hnumber, -⟩ := Option.map_eq_some_iff.mp h
      exact visible_of_number hnumber

/-- A text that trimming leaves nothing of holds no value. -/
theorem parse_blank {text : Bytes} (h : trimSpace text = []) : parse text = none := by
  rw [parse]
  cases hvalue : parsePrefix text with
  | none => rfl
  | some out =>
    obtain ⟨b, hb, hvisible⟩ := visible_of_value hvalue
    have hmem := mem_trimSpace hvisible ((List.dropWhile_sublist _).subset hb)
    rw [h] at hmem
    exact absurd hmem List.not_mem_nil

end Foundations.Json
