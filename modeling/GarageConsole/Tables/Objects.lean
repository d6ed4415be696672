import GarageConsole.Foundations.Comparators
import GarageConsole.Foundations.Utf16

/-! # The table of a bucket's objects

The objects that were loaded are sorted by name, size or date. Objects of the same size or date come by name, so the
table depends on nothing but which objects there are, and the other direction reverses it (`sorted_objects`).
-/

namespace GarageConsole.Tables

open Foundations Foundations.StableSort Foundations.Utf16

set_option autoImplicit false

structure S3Object where
  key : Units
  size : ℤ
  lastModified : Units

inductive ObjectSortKey where
  | name
  | size
  | lastModified
  deriving DecidableEq

inductive SortDir where
  | asc
  | desc
  deriving DecidableEq

/-- What a click on the head of a column makes of the order. -/
def handleSort (s : ObjectSortKey × SortDir) (column : ObjectSortKey) : ObjectSortKey × SortDir :=
  if column = s.1 then (s.1, if s.2 = .asc then .desc else .asc)
  else (column, if column = .name then .asc else .desc)

section Sorting

variable (parse : Units → Option ℤ)

/-- `Date.parse`, with 0 for what is no date. -/
def time (s : Units) : ℤ := (parse s).getD 0

def columnOrder : ObjectSortKey → Comparator S3Object
  | .size => Comparator.byNumber.on S3Object.size
  | .lastModified => Comparator.byNumber.on fun o => time parse o.lastModified
  | .name => fun _ _ => 0

/-- Keys are compared by their code units. -/
def compareObjects (sortKey : ObjectSortKey) : Comparator S3Object :=
  (columnOrder parse sortKey).thenBy (Comparator.byOrder.on fun o => codes o.key)

def sortedObjects (allObjects : List S3Object) (s : ObjectSortKey × SortDir) : List S3Object :=
  let sign := if s.2 = .asc then 1 else -1
  Comparator.sort (fun a b => compareObjects parse s.1 a b * sign) allObjects

end Sorting

variable {parse : Units → Option ℤ}

theorem consistent_compareObjects (sortKey : ObjectSortKey) : (compareObjects parse sortKey).Consistent := by
  refine Comparator.Consistent.thenBy ?_ (Comparator.consistent_byOrder.on _)
  cases sortKey with
  | size => exact Comparator.consistent_byNumber.on _
  | lastModified => exact Comparator.consistent_byNumber.on _
  | name => exact ⟨fun _ _ => Iff.rfl, fun _ _ _ _ _ => le_rfl⟩

theorem key_eq_of_compareObjects {sortKey : ObjectSortKey} {a b : S3Object}
    (h : compareObjects parse sortKey a b = 0) : a.key = b.key := by
  unfold compareObjects Comparator.thenBy at h
  split_ifs at h with hcolumn
  · exact codes_injective (Comparator.byOrder_eq_zero.mp h)
  · exact absurd h hcolumn

theorem sortedObjects_asc (allObjects : List S3Object) (sortKey : ObjectSortKey) :
    sortedObjects parse allObjects (sortKey, .asc) = (compareObjects parse sortKey).sort allObjects := by
  simp [sortedObjects]

theorem sortedObjects_desc (allObjects : List S3Object) (sortKey : ObjectSortKey) :
    sortedObjects parse allObjects (sortKey, .desc) = (compareObjects parse sortKey).backwards.sort allObjects := by
  have hneg : (fun a b => compareObjects parse sortKey a b * -1) = (compareObjects parse sortKey).backwards := by
    funext a b
    exact mul_neg_one _
  simp [sortedObjects, ← hneg]

/-- The table shows every loaded object once, in the order of the column. However the objects were loaded, it is the
same, and the other direction shows the same backwards. -/
theorem sorted_objects {allObjects : List S3Object} (hkeys : (allObjects.map S3Object.key).Nodup)
    (s : ObjectSortKey × SortDir) :
    (sortedObjects parse allObjects s).Perm allObjects ∧
      (sortedObjects parse allObjects (s.1, .asc)).Pairwise
        (fun a b => columnOrder parse s.1 a b < 0 ∨ columnOrder parse s.1 a b = 0 ∧ codes a.key < codes b.key) ∧
      (∀ loaded : List S3Object, loaded.Perm allObjects →
        sortedObjects parse loaded s = sortedObjects parse allObjects s) ∧
      sortedObjects parse allObjects (handleSort s s.1) = (sortedObjects parse allObjects s).reverse := by
  have hc : (compareObjects parse s.1).Consistent := consistent_compareObjects s.1
  have hdistinct : ∀ a ∈ allObjects, ∀ b ∈ allObjects, compareObjects parse s.1 a b = 0 → a = b :=
    fun a ha b hb hab => List.inj_on_of_nodup_map hkeys ha hb (key_eq_of_compareObjects hab)
  have hbackwards := hc.sort_backwards hdistinct
  obtain ⟨sortKey, dir⟩ := s
  refine ⟨Comparator.sort_perm _ _, ?_, fun loaded hperm => ?_, ?_⟩
  · rw [sortedObjects_asc]
    have hnodup : ((compareObjects parse sortKey).sort allObjects).Pairwise fun a b => a.key ≠ b.key :=
      List.pairwise_map.mp (((Comparator.sort_perm _ allObjects).map S3Object.key).nodup_iff.mpr hkeys)
    refine ((hc.pairwise_sort allObjects).and hnodup).imp fun {a b} h => ?_
    refine (Comparator.thenBy_le_iff.mp h.1).imp id fun hcolumn => ⟨hcolumn.1, ?_⟩
    exact lt_of_le_of_ne (Comparator.byOrder_le_iff.mp hcolumn.2) fun heq => h.2 (codes_injective heq)
  · have hsame : ∀ a ∈ loaded, ∀ b ∈ loaded, compareObjects parse sortKey a b = 0 → a = b :=
      fun a ha b hb => hdistinct a (hperm.mem_iff.mp ha) b (hperm.mem_iff.mp hb)
    cases dir with
    | asc => rw [sortedObjects_asc, sortedObjects_asc, hc.sort_eq_of_perm hperm hsame]
    | desc =>
      rw [sortedObjects_desc, sortedObjects_desc]
      exact hc.backwards.sort_eq_of_perm hperm fun a ha b hb hab => hsame a ha b hb (neg_eq_zero.mp hab)
  · rw [handleSort, if_pos rfl]
    cases dir with
    | asc => rw [if_pos rfl, sortedObjects_asc, sortedObjects_desc, hbackwards]
    | desc => rw [if_neg SortDir.noConfusion, sortedObjects_asc, sortedObjects_desc, hbackwards, List.reverse_reverse]

theorem sorted_objects_two :
    let two : List S3Object := [⟨utf16 "b", 2, []⟩, ⟨utf16 "a", 2, []⟩]
    (sortedObjects (fun _ => none) two (.size, .desc)).Perm two ∧
      (sortedObjects (fun _ => none) two (.size, .asc)).Pairwise (fun a b =>
        columnOrder (fun _ => none) .size a b < 0 ∨
          columnOrder (fun _ => none) .size a b = 0 ∧ codes a.key < codes b.key) ∧
      (∀ loaded : List S3Object, loaded.Perm two →
        sortedObjects (fun _ => none) loaded (.size, .desc) = sortedObjects (fun _ => none) two (.size, .desc)) ∧
      sortedObjects (fun _ => none) two (handleSort (.size, .desc) .size) =
        (sortedObjects (fun _ => none) two (.size, .desc)).reverse :=
  sorted_objects (by decide) (.size, .desc)

end GarageConsole.Tables
