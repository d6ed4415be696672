import Mathlib.Data.List.Basic
import Mathlib.Order.Lattice
import Mathlib.Tactic.Common

/-! # Sorted listings

A listing that is sorted by a key, and what is left of it from a key on (`startingAt`) or past it (`after`).
A reader that pages through one keeps what it has, ending in the entry it asks from next, and what is left.
-/

namespace Foundations.Listing

set_option autoImplicit false

variable {α κ : Type} [LinearOrder κ] {f : α → κ}

def SortedBy (f : α → κ) (l : List α) : Prop := l.Pairwise fun x y => f x < f y

def startingAt (f : α → κ) (k : κ) (l : List α) : List α := l.filter fun x => k ≤ f x

def after (f : α → κ) (k : κ) (l : List α) : List α := l.filter fun x => k < f x

theorem SortedBy.split {before rest : List α} {x : α} (h : SortedBy f (before ++ x :: rest)) :
    (∀ y ∈ before, f y < f x) ∧ ∀ y ∈ rest, f x < f y := by
  obtain ⟨-, hrest, hcross⟩ := List.pairwise_append.mp h
  exact ⟨fun y hy => hcross y hy x List.mem_cons_self, fun y hy => (List.pairwise_cons.mp hrest).1 y hy⟩

theorem SortedBy.nodup {l : List α} (h : SortedBy f l) : (l.map f).Nodup :=
  List.pairwise_map.mpr (h.imp fun hlt => hlt.ne)

theorem SortedBy.filter {l : List α} (h : SortedBy f l) (p : α → Bool) : SortedBy f (l.filter p) :=
  List.Pairwise.filter p h

theorem startingAt_eq {before rest : List α} {x : α} (h : SortedBy f (before ++ x :: rest)) :
    startingAt f (f x) (before ++ x :: rest) = x :: rest := by
  obtain ⟨hbefore, hrest⟩ := h.split
  have hnone : before.filter (fun y => f x ≤ f y) = [] := by
    rw [List.filter_eq_nil_iff]
    intro y hy
    simpa using hbefore y hy
  have hall : (x :: rest).filter (fun y => f x ≤ f y) = x :: rest := by
    rw [List.filter_eq_self]
    intro y hy
    rcases List.mem_cons.mp hy with rfl | hy
    · simp
    · simpa using (hrest y hy).le
  rw [startingAt, List.filter_append, hnone, hall, List.nil_append]

theorem after_eq {before rest : List α} {x : α} (h : SortedBy f (before ++ x :: rest)) :
    after f (f x) (before ++ x :: rest) = rest := by
  obtain ⟨hbefore, hrest⟩ := h.split
  have hnone : before.filter (fun y => f x < f y) = [] := by
    rw [List.filter_eq_nil_iff]
    intro y hy
    simpa using (hbefore y hy).le
  have hall : rest.filter (fun y => f x < f y) = rest := by
    rw [List.filter_eq_self]
    intro y hy
    simpa using hrest y hy
  rw [after, List.filter_append, hnone, List.filter_cons_of_neg (by simp), hall, List.nil_append]

theorem after_after {k k' : κ} (h : k ≤ k') (l : List α) : after f k' (after f k l) = after f k' l := by
  rw [after, after, after, List.filter_filter]
  refine List.filter_congr fun x _ => ?_
  simp only [Bool.and_eq_left_iff_imp, decide_eq_true_eq]
  exact h.trans_lt

end Foundations.Listing
