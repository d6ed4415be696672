import Mathlib.Data.List.Basic
import Mathlib.Data.Nat.Notation
import Mathlib.Tactic.Common
import Mathlib.Tactic.Ring

/-! # Lists cut into chunks

`chunks n l` are the pieces `l[0:n]`, `l[n:2n]`, … of a list, the last one possibly shorter.
-/

namespace Foundations.Chunks

set_option autoImplicit false

variable {α : Type}

def chunks (n : ℕ) (l : List α) : List (List α) :=
  (List.range ((l.length + n - 1) / n)).map fun i => (l.drop (i * n)).take n

theorem flatten_first_chunks (n : ℕ) (l : List α) (m : ℕ) :
    ((List.range m).map fun i => (l.drop (i * n)).take n).flatten = l.take (m * n) := by
  induction m with
  | zero => simp
  | succ m ih =>
    rw [List.range_succ, List.map_append, List.flatten_append, ih, Nat.succ_mul, List.take_add]
    simp

theorem flatten_chunks {n : ℕ} (hn : 0 < n) (l : List α) : (chunks n l).flatten = l := by
  rw [chunks, flatten_first_chunks]
  refine List.take_of_length_le ?_
  have hdm := Nat.div_add_mod (l.length + n - 1) n
  have hmod := Nat.mod_lt (l.length + n - 1) hn
  rw [Nat.mul_comm] at hdm
  omega

/-! ## Lists without repetitions -/

variable [DecidableEq α]

theorem eraseDups_of_nodup {l : List α} (h : l.Nodup) : l.eraseDups = l := by
  induction l with
  | nil => rfl
  | cons a l ih =>
    rw [List.nodup_cons] at h
    have hkeep : (l.filter fun b => !b == a) = l := by
      rw [List.filter_eq_self]
      intro b hb
      have : b ≠ a := fun heq => h.1 (heq ▸ hb)
      simpa using this
    rw [List.eraseDups_cons, hkeep, ih h.2]

end Foundations.Chunks
