import Mathlib.Data.List.Basic
import Mathlib.Tactic.Common

/-! # Lists with separators

`splitOn` cuts a list at a separator. The pieces do not have it, and what is joined by the separator and a padding
after it is cut into the same pieces again, each after the first with the padding in front.
-/

namespace Foundations.Separated

set_option autoImplicit false

variable {α : Type} [DecidableEq α] {a : α}

theorem not_mem_of_mem_splitOn {l piece : List α} (h : piece ∈ l.splitOn a) : a ∉ piece := by
  induction l generalizing piece with
  | nil =>
    obtain rfl : piece = [] := by simpa using h
    exact List.not_mem_nil
  | cons b l ih =>
    rw [List.splitOn_cons_eq_if_modifyHead] at h
    split_ifs at h with hb
    · rcases List.mem_cons.mp h with rfl | h
      · exact List.not_mem_nil
      · exact ih h
    · cases hsplit : l.splitOn a with
      | nil => exact absurd hsplit (List.splitOn_ne_nil _ _)
      | cons t ts =>
        rw [hsplit, List.modifyHead_cons] at h
        have hmem : ∀ u ∈ t :: ts, a ∉ u := fun u hu => ih (hsplit ▸ hu)
        rcases List.mem_cons.mp h with rfl | h
        · have hne : a ≠ b := by
            intro heq
            rw [heq, beq_self_eq_true] at hb
            exact hb rfl
          exact List.not_mem_cons_of_ne_of_not_mem hne (hmem t List.mem_cons_self)
        · exact hmem piece (List.mem_cons_of_mem _ h)

/-- The first piece may stand after a beginning of its own. -/
theorem splitOn_append_intercalate {pad : List α} (hpad : a ∉ pad) {ts : List (List α)} :
    ∀ {front t : List α}, a ∉ front → (∀ u ∈ t :: ts, a ∉ u) →
      (front ++ (a :: pad).intercalate (t :: ts)).splitOn a = (front ++ t) :: ts.map (pad ++ ·) := by
  induction ts with
  | nil =>
    intro front t hfront hts
    rw [List.intercalate_singleton, List.map_nil, List.splitOn_eq_singleton]
    rw [List.mem_append, not_or]
    exact ⟨hfront, hts t List.mem_cons_self⟩
  | cons t' ts ih =>
    intro front t hfront hts
    have hhead : a ∉ front ++ t := by
      rw [List.mem_append, not_or]
      exact ⟨hfront, hts t List.mem_cons_self⟩
    rw [List.intercalate_cons_cons, List.append_assoc, ← List.append_assoc front, List.cons_append,
      List.splitOn_append_cons_self_of_not_mem hhead, ih hpad fun u hu => hts u (List.mem_cons_of_mem t hu),
      List.map_cons]

theorem splitOn_intercalate {pad t : List α} {ts : List (List α)} (hpad : a ∉ pad) (hts : ∀ u ∈ t :: ts, a ∉ u) :
    ((a :: pad).intercalate (t :: ts)).splitOn a = t :: ts.map (pad ++ ·) :=
  splitOn_append_intercalate hpad List.not_mem_nil hts

end Foundations.Separated
