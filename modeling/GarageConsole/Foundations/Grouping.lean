import Mathlib.Data.List.Induction
import GarageConsole.Foundations.OrderedMap

/-! # Grouping by a key

A loop that keeps something for each key starts it at the first element of the key and adds the elements one by one.
What it has for a key in the end comes from the elements of that key alone, in their order (`get_collect`). Lists of the
elements of each key make up the whole list (`perm_flatMap_filter`).
-/

namespace Foundations.OrderedMap

set_option autoImplicit false

variable {κ α β : Type} [DecidableEq κ] (keyOf : β → κ) (start : β → α) (add : α → β → α)

def collectOne (m : OrderedMap κ α) (b : β) : OrderedMap κ α :=
  m.set (keyOf b) (add ((m.get (keyOf b)).getD (start b)) b)

def collect (l : List β) : OrderedMap κ α := l.foldl (collectOne keyOf start add) empty

/-- What is kept for the elements of one key. -/
def collected : List β → Option α
  | [] => none
  | b :: rest => some (rest.foldl add (add (start b) b))

theorem collected_append (l : List β) (b : β) :
    collected start add (l ++ [b]) = some (add ((collected start add l).getD (start b)) b) := by
  cases l with
  | nil => rfl
  | cons a l =>
    rw [List.cons_append, collected, collected, List.foldl_append]
    rfl

theorem get_collect (l : List β) (k : κ) :
    (collect keyOf start add l).get k = collected start add (l.filter fun b => keyOf b = k) := by
  induction l using List.reverseRecOn with
  | nil => rfl
  | append_singleton l b ih =>
    rw [collect, List.foldl_append, List.foldl_cons, List.foldl_nil, collectOne, get_set, List.filter_append]
    by_cases hk : k = keyOf b
    · subst hk
      rw [if_pos rfl, List.filter_cons_of_pos (p := fun c => decide (keyOf c = keyOf b)) (decide_eq_true rfl),
        List.filter_nil, collected_append, ← ih]
      rfl
    · rw [if_neg hk, List.filter_cons_of_neg (by simpa using Ne.symm hk), List.filter_nil, List.append_nil]
      exact ih

theorem mem_keys_collect {l : List β} {k : κ} : k ∈ (collect keyOf start add l).keys ↔ ∃ b ∈ l, keyOf b = k := by
  rw [mem_keys_iff, get_collect]
  cases hl : l.filter fun b => keyOf b = k with
  | nil =>
    refine iff_of_false (by simp [collected]) ?_
    rintro ⟨b, hb, hk⟩
    exact absurd (hl ▸ List.mem_filter.mpr ⟨hb, decide_eq_true hk⟩) List.not_mem_nil
  | cons b rest =>
    have hb : b ∈ l.filter fun b => keyOf b = k := hl ▸ List.mem_cons_self
    exact iff_of_true ⟨_, rfl⟩ ⟨b, (List.mem_filter.mp hb).1, of_decide_eq_true (List.mem_filter.mp hb).2⟩

/-- The elements of each of the keys, key after key. -/
theorem perm_flatMap_filter {keys : List κ} (hnodup : keys.Nodup) {l : List β} (hkeys : ∀ b ∈ l, keyOf b ∈ keys) :
    (keys.flatMap fun k => l.filter fun b => keyOf b = k).Perm l := by
  induction keys generalizing l with
  | nil =>
    cases l with
    | nil => exact .refl []
    | cons b l => exact absurd (hkeys b List.mem_cons_self) List.not_mem_nil
  | cons k keys ih =>
    rw [List.nodup_cons] at hnodup
    have hothers : (keys.flatMap fun k => l.filter fun b => keyOf b = k) =
        keys.flatMap fun k' => (l.filter fun b => !decide (keyOf b = k)).filter fun b => keyOf b = k' := by
      refine List.flatMap_congr fun k' hk' => ?_
      rw [List.filter_filter]
      refine List.filter_congr fun b _ => ?_
      by_cases hb : keyOf b = k'
      · have hne : keyOf b ≠ k := fun heq => hnodup.1 (heq.symm.trans hb ▸ hk')
        simp [hb, hb ▸ hne]
      · simp [hb]
    rw [List.flatMap_cons, hothers]
    refine ((ih hnodup.2 fun b hb => ?_).append_left _).trans (List.filter_append_perm _ l)
    have hmem := List.mem_filter.mp hb
    refine (List.mem_cons.mp (hkeys b hmem.1)).resolve_left fun heq => ?_
    rw [heq] at hmem
    simp at hmem

end Foundations.OrderedMap
