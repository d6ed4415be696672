import Mathlib.Data.List.Nodup
import Mathlib.Data.List.Perm.Subperm
import Mathlib.Data.Nat.Notation

/-! # The first value that is not taken

A loop that tries `f n`, `f (n + 1)`, … until one is not taken ends when `f` is injective: among one more
value than there are taken ones, one is fresh. `firstFresh` looks at just so many.
-/

namespace Foundations.Fresh

set_option autoImplicit false

variable {α : Type} [DecidableEq α]

/-- The first of `f n`, `f (n + 1)`, … that is not taken, if it comes within `fuel` steps. -/
def freshWithin (f : ℕ → α) (taken : List α) : ℕ → ℕ → α
  | 0, n => f n
  | fuel + 1, n => if f n ∈ taken then freshWithin f taken fuel (n + 1) else f n

def firstFresh (f : ℕ → α) (taken : List α) (n : ℕ) : α := freshWithin f taken taken.length n

theorem freshWithin_spec {f : ℕ → α} {taken : List α} {fuel k n : ℕ} (hn : n ≤ k) (hk : k ≤ n + fuel)
    (hfresh : f k ∉ taken) : ∃ m, n ≤ m ∧ freshWithin f taken fuel n = f m ∧ f m ∉ taken ∧
      ∀ j, n ≤ j → j < m → f j ∈ taken := by
  induction fuel generalizing n with
  | zero =>
    obtain rfl : k = n := by omega
    exact ⟨k, Nat.le_refl k, rfl, hfresh, fun j hj hlt => absurd hlt (Nat.not_lt_of_le hj)⟩
  | succ fuel ih =>
    rw [freshWithin]
    split_ifs with htaken
    · have hne : n ≠ k := by
        rintro rfl
        exact hfresh htaken
      obtain ⟨m, hm, heq, hnot, hbefore⟩ := @ih (n + 1) (by omega) (by omega)
      refine ⟨m, by omega, heq, hnot, ?_⟩
      intro j hj hlt
      by_cases hfirst : j = n
      · rw [hfirst]
        exact htaken
      · exact hbefore j (by omega) hlt
    · exact ⟨n, Nat.le_refl n, rfl, htaken, fun j hj hlt => absurd hlt (Nat.not_lt_of_le hj)⟩

omit [DecidableEq α] in
/-- Among one more value than there are taken ones, one is fresh. -/
theorem exists_fresh {f : ℕ → α} (hf : Function.Injective f) (taken : List α) (n : ℕ) :
    ∃ k, n ≤ k ∧ k ≤ n + taken.length ∧ f k ∉ taken := by
  by_contra hall
  have htaken : ∀ k, n ≤ k → k ≤ n + taken.length → f k ∈ taken := by
    intro k hn hk
    by_contra hnot
    exact hall ⟨k, hn, hk, hnot⟩
  have hnodup : ((List.range (taken.length + 1)).map fun i => f (n + i)).Nodup := by
    apply List.nodup_range.map
    intro i j h
    exact Nat.add_left_cancel (hf h)
  have hsubset : (List.range (taken.length + 1)).map (fun i => f (n + i)) ⊆ taken := by
    intro x hx
    obtain ⟨i, hi, rfl⟩ := List.mem_map.mp hx
    have hlt := List.mem_range.mp hi
    exact htaken (n + i) (by omega) (by omega)
  have hlength := (hnodup.subperm hsubset).length_le
  rw [List.length_map, List.length_range] at hlength
  omega

theorem firstFresh_spec {f : ℕ → α} (hf : Function.Injective f) (taken : List α) (n : ℕ) :
    ∃ m, n ≤ m ∧ firstFresh f taken n = f m ∧ f m ∉ taken ∧ ∀ j, n ≤ j → j < m → f j ∈ taken := by
  obtain ⟨k, hn, hk, hfresh⟩ := exists_fresh hf taken n
  exact freshWithin_spec hn hk hfresh

end Foundations.Fresh
