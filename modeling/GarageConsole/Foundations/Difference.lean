import Mathlib.Order.BooleanAlgebra.Basic
import Mathlib.Data.List.Basic
import Mathlib.Tactic.Common

/-! # Changing a set by adding and removing

In a Boolean algebra, `c` becomes `w` by adding `w \ c` and removing `c \ w`. A `Change` adds or
removes; `applyAll` makes a list of them in order. What no change removes stays, and what one change
adds and no later one removes is there at the end; dually for what no change adds.
-/

namespace Foundations.Difference

set_option autoImplicit false

variable {α : Type} [BooleanAlgebra α]

theorem add_remove (c w : α) : (c ⊔ w \ c) \ (c \ w) = w := by
  have hkeep : w \ (c \ w) = w := by
    rw [sdiff_eq_left]
    exact disjoint_sdiff_self_right
  rw [sup_sdiff_self_right, sup_sdiff, sdiff_sdiff_right_self, hkeep]
  exact sup_eq_right.mpr inf_le_right

theorem eq_of_no_difference {c w : α} (hadd : w \ c = ⊥) (hremove : c \ w = ⊥) : w = c :=
  le_antisymm (sdiff_eq_bot_iff.mp hadd) (sdiff_eq_bot_iff.mp hremove)

/-! ## Lists of changes -/

inductive Change (α : Type) where
  | add (a : α)
  | remove (a : α)

def Change.apply (s : α) : Change α → α
  | .add a => s ⊔ a
  | .remove a => s \ a

def applyAll (s : α) (cs : List (Change α)) : α := cs.foldl Change.apply s

@[simp] theorem applyAll_nil (s : α) : applyAll s [] = s := rfl

@[simp] theorem applyAll_cons (s : α) (c : Change α) (cs : List (Change α)) :
    applyAll s (c :: cs) = applyAll (c.apply s) cs := rfl

theorem applyAll_append (s : α) (l r : List (Change α)) : applyAll s (l ++ r) = applyAll (applyAll s l) r :=
  List.foldl_append

/-- No change removes a part of `p`. -/
def Keeps (p : α) (cs : List (Change α)) : Prop := ∀ a, .remove a ∈ cs → Disjoint p a

/-- No change adds a part of `p`. -/
def AddsNone (p : α) (cs : List (Change α)) : Prop := ∀ a, .add a ∈ cs → Disjoint p a

theorem Keeps.tail {p : α} {c : Change α} {cs : List (Change α)} (h : Keeps p (c :: cs)) : Keeps p cs :=
  fun a ha => h a (List.mem_cons_of_mem _ ha)

theorem AddsNone.tail {p : α} {c : Change α} {cs : List (Change α)} (h : AddsNone p (c :: cs)) :
    AddsNone p cs :=
  fun a ha => h a (List.mem_cons_of_mem _ ha)

theorem inf_le_apply {p s : α} {c : Change α} (h : ∀ a, c = .remove a → Disjoint p a) : p ⊓ s ≤ c.apply s := by
  cases c with
  | add a => exact inf_le_right.trans le_sup_left
  | remove a =>
    rw [Change.apply, le_sdiff]
    exact ⟨inf_le_right, (h a rfl).mono_left inf_le_left⟩

theorem inf_apply_le {p s : α} {c : Change α} (h : ∀ a, c = .add a → Disjoint p a) : p ⊓ c.apply s ≤ s := by
  cases c with
  | add a =>
    rw [Change.apply, inf_sup_left, (h a rfl).eq_bot, sup_bot_eq]
    exact inf_le_right
  | remove a => exact inf_le_right.trans sdiff_le

theorem inf_le_applyAll {p : α} {cs : List (Change α)} (h : Keeps p cs) (s : α) : p ⊓ s ≤ applyAll s cs := by
  induction cs generalizing s with
  | nil => exact inf_le_right
  | cons c cs ih =>
    have hc : ∀ a, c = .remove a → Disjoint p a := fun a ha => h a (ha ▸ List.mem_cons_self)
    exact (le_inf inf_le_left (inf_le_apply hc)).trans (ih h.tail (c.apply s))

theorem inf_applyAll_le {p : α} {cs : List (Change α)} (h : AddsNone p cs) (s : α) :
    p ⊓ applyAll s cs ≤ s := by
  induction cs generalizing s with
  | nil => exact inf_le_right
  | cons c cs ih =>
    have hc : ∀ a, c = .add a → Disjoint p a := fun a ha => h a (ha ▸ List.mem_cons_self)
    exact (le_inf inf_le_left (ih h.tail (c.apply s))).trans (inf_apply_le hc)

theorem inf_le_applyAll_of_mem {p a : α} {cs : List (Change α)} (h : Keeps p cs) (hmem : .add a ∈ cs) (s : α) :
    p ⊓ a ≤ applyAll s cs := by
  obtain ⟨l, r, rfl⟩ := List.append_of_mem hmem
  have hr : Keeps p r := fun b hb => h b (by simp [hb])
  rw [applyAll_append, applyAll_cons, Change.apply]
  exact (le_inf inf_le_left (inf_le_right.trans le_sup_right)).trans (inf_le_applyAll hr _)

theorem disjoint_applyAll_of_mem {p a : α} {cs : List (Change α)} (h : AddsNone p cs) (hmem : .remove a ∈ cs)
    (s : α) : Disjoint (p ⊓ a) (applyAll s cs) := by
  obtain ⟨l, r, rfl⟩ := List.append_of_mem hmem
  have hr : AddsNone p r := fun b hb => h b (by simp [hb])
  rw [applyAll_append, applyAll_cons, Change.apply, disjoint_iff_inf_le]
  have hle := inf_applyAll_le hr (applyAll s l \ a)
  have hin : p ⊓ a ⊓ applyAll (applyAll s l \ a) r ≤ applyAll s l \ a :=
    (inf_le_inf_right _ inf_le_left).trans hle
  have ha : p ⊓ a ⊓ applyAll (applyAll s l \ a) r ≤ a := inf_le_left.trans inf_le_right
  exact (le_inf ha hin).trans (by rw [inf_sdiff_self_right])

/-- **An edit among others.** One edit turns `c` into `w`; whatever else the list adds is part of `w ⊔ e`
and whatever else it removes is outside `w ⊓ e`. Then the end lies between `w ⊓ e` and `w ⊔ e`. -/
theorem settle {c w e : α} {cs : List (Change α)} (hadd : w \ c ≠ ⊥ → .add (w \ c) ∈ cs)
    (hremove : c \ w ≠ ⊥ → .remove (c \ w) ∈ cs) (hadds : ∀ a, .add a ∈ cs → a ≤ w ⊔ e)
    (hremoves : ∀ a, .remove a ∈ cs → Disjoint (w ⊓ e) a) :
    w ⊓ e ≤ applyAll c cs ∧ applyAll c cs ≤ w ⊔ e := by
  have hnone : AddsNone (w ⊔ e)ᶜ cs := fun a ha => disjoint_compl_left.mono_right (hadds a ha)
  constructor
  · -- each flag of `w ⊓ e` was there at the start or is added
    have hstart : w ⊓ e ⊓ c ≤ applyAll c cs := inf_le_applyAll hremoves c
    have hadded : w ⊓ e ⊓ (w \ c) ≤ applyAll c cs := by
      by_cases hbot : w \ c = ⊥
      · rw [hbot, inf_bot_eq]
        exact bot_le
      · exact inf_le_applyAll_of_mem hremoves (hadd hbot) c
    calc w ⊓ e ≤ w ⊓ e ⊓ (c ⊔ w \ c) := by
          rw [sup_sdiff_self_right]
          exact le_inf le_rfl (inf_le_left.trans le_sup_right)
      _ = w ⊓ e ⊓ c ⊔ w ⊓ e ⊓ (w \ c) := inf_sup_left _ _ _
      _ ≤ applyAll c cs := sup_le hstart hadded
  · -- what is outside `w ⊔ e` was there at the start, and is removed
    have hstart : (w ⊔ e)ᶜ ⊓ applyAll c cs ≤ c := inf_applyAll_le hnone c
    have hgone : Disjoint ((w ⊔ e)ᶜ ⊓ (c \ w)) (applyAll c cs) := by
      by_cases hbot : c \ w = ⊥
      · rw [hbot, inf_bot_eq]
        exact disjoint_bot_left
      · exact disjoint_applyAll_of_mem hnone (hremove hbot) c
    have hout : (w ⊔ e)ᶜ ⊓ applyAll c cs ≤ c \ w := by
      rw [le_sdiff]
      exact ⟨hstart, (disjoint_compl_left.mono_right le_sup_left).mono_left inf_le_left⟩
    have hbot : (w ⊔ e)ᶜ ⊓ applyAll c cs ≤ ⊥ := by
      calc (w ⊔ e)ᶜ ⊓ applyAll c cs ≤ (w ⊔ e)ᶜ ⊓ (c \ w) ⊓ applyAll c cs :=
            le_inf (le_inf inf_le_left hout) inf_le_right
        _ ≤ ⊥ := disjoint_iff_inf_le.mp hgone
    exact disjoint_compl_left_iff.mp (disjoint_iff_inf_le.mpr hbot)

end Foundations.Difference
