import Mathlib.Data.List.Sort

/-! # Stable sorting

`le` compares by a key that several elements may share. A stable sort keeps elements that compare alike in their
order (`filter_mergeSort`), and there is only one sorted list that does (`eq_of_sorted`). So what was in the list
for each key, in its order, determines the sorted list (`mergeSort_eq_of_alike`).
-/

namespace Foundations.StableSort

set_option autoImplicit false

variable {α : Type}

/-- The two share their key. -/
def alike (le : α → α → Bool) (x y : α) : Bool := le x y && le y x

/-- A comparison by a key. -/
structure Comparison (le : α → α → Bool) : Prop where
  trans : ∀ a b c, le a b = true → le b c = true → le a c = true
  total : ∀ a b, (le a b || le b a) = true

namespace Comparison

variable {le : α → α → Bool} (h : Comparison le)

include h

theorem refl (x : α) : le x x = true := by
  have htotal := h.total x x
  rwa [Bool.or_self] at htotal

theorem alike_refl (x : α) : alike le x x = true := by
  rw [alike, h.refl]
  rfl

/-- Two sorted lists with the same elements for each key, in the same order, are the same. -/
theorem eq_of_sorted : ∀ {a b : List α}, a.Pairwise (le · · = true) → b.Pairwise (le · · = true) →
    (∀ x, a.filter (alike le x) = b.filter (alike le x)) → a = b
  | [], [], _, _, _ => rfl
  | [], y :: b, _, _, hfilter => by
    have hy := hfilter y
    rw [List.filter_cons_of_pos (h.alike_refl y)] at hy
    cases hy
  | x :: a, [], _, _, hfilter => by
    have hx := hfilter x
    rw [List.filter_cons_of_pos (h.alike_refl x)] at hx
    cases hx
  | x :: a, y :: b, ha, hb, hfilter => by
    have hx : x ∈ (y :: b).filter (alike le x) := by
      rw [← hfilter x, List.filter_cons_of_pos (h.alike_refl x)]
      exact List.mem_cons_self
    have hy : y ∈ (x :: a).filter (alike le y) := by
      rw [hfilter y, List.filter_cons_of_pos (h.alike_refl y)]
      exact List.mem_cons_self
    have hyx : le y x = true := by
      rcases List.mem_cons.mp (List.mem_filter.mp hx).1 with rfl | hmem
      · exact h.refl x
      · exact List.rel_of_pairwise_cons hb hmem
    have hxy : le x y = true := by
      rcases List.mem_cons.mp (List.mem_filter.mp hy).1 with rfl | hmem
      · exact h.refl y
      · exact List.rel_of_pairwise_cons ha hmem
    have halike : alike le x y = true := by
      rw [alike, hxy, hyx]
      rfl
    -- the heads share their key, so they are the first of the elements with it
    obtain rfl : x = y := by
      have hfirst := hfilter x
      rw [List.filter_cons_of_pos (h.alike_refl x), List.filter_cons_of_pos halike] at hfirst
      exact (List.cons.inj hfirst).1
    refine congrArg (x :: ·) (eq_of_sorted ha.tail hb.tail fun z => ?_)
    have hz := hfilter z
    cases hzx : alike le z x with
    | true =>
      rw [List.filter_cons_of_pos hzx, List.filter_cons_of_pos hzx] at hz
      exact (List.cons.inj hz).2
    | false =>
      have hnot : ¬alike le z x = true := fun hpos => Bool.noConfusion (hzx.symm.trans hpos)
      rwa [List.filter_cons_of_neg hnot, List.filter_cons_of_neg hnot] at hz

theorem sorted_mergeSort (l : List α) : (l.mergeSort le).Pairwise (le · · = true) :=
  List.pairwise_mergeSort h.trans h.total l

/-- Sorting keeps the elements for a key in their order. -/
theorem filter_mergeSort (l : List α) (x : α) : (l.mergeSort le).filter (alike le x) = l.filter (alike le x) := by
  have hsorted : (l.filter (alike le x)).Pairwise (le · · = true) := by
    refine List.pairwise_of_forall_mem_list fun y hy z hz => ?_
    have hxy := (List.mem_filter.mp hy).2
    have hxz := (List.mem_filter.mp hz).2
    rw [alike, Bool.and_eq_true] at hxy hxz
    exact h.trans y x z hxy.2 hxz.1
  have hsub := (List.sublist_mergeSort h.trans h.total hsorted List.filter_sublist).filter (alike le x)
  rw [List.filter_filter] at hsub
  simp only [Bool.and_self] at hsub
  refine (hsub.eq_of_length ?_).symm
  exact ((List.mergeSort_perm l le).filter _).length_eq.symm

/-- The sorted list is the one that has for each key what the list had for it. -/
theorem mergeSort_eq_of_alike {l sorted : List α} (hsorted : sorted.Pairwise (le · · = true))
    (hfilter : ∀ x, sorted.filter (alike le x) = l.filter (alike le x)) : l.mergeSort le = sorted :=
  h.eq_of_sorted (h.sorted_mergeSort l) hsorted fun x => (h.filter_mergeSort l x).trans (hfilter x).symm

theorem mergeSort_congr {l l' : List α} (hfilter : ∀ x, l.filter (alike le x) = l'.filter (alike le x)) :
    l.mergeSort le = l'.mergeSort le :=
  h.mergeSort_eq_of_alike (h.sorted_mergeSort l') fun x => (h.filter_mergeSort l' x).trans (hfilter x).symm

end Comparison

end Foundations.StableSort
