import GarageConsole.Foundations.Chunks
import Mathlib.Data.List.Nodup
import Mathlib.Tactic.Common

/-! # Sets that remember the order of insertion

An `OrderedSet` lists its elements once each, in the order in which they were first inserted; an element
that is there already keeps its place.
-/

namespace Foundations

set_option autoImplicit false

structure OrderedSet (α : Type) where
  items : List α
  nodup : items.Nodup

namespace OrderedSet

variable {α : Type} [DecidableEq α]

def empty : OrderedSet α := ⟨[], List.nodup_nil⟩

def has (s : OrderedSet α) (a : α) : Bool := s.items.contains a

def insert (s : OrderedSet α) (a : α) : OrderedSet α where
  items := if s.items.contains a then s.items else s.items ++ [a]
  nodup := by
    split
    · exact s.nodup
    · rename_i h
      rw [List.contains_iff_mem] at h
      exact List.nodup_append.mpr ⟨s.nodup, List.nodup_singleton a, fun x hx y hy => by
        rw [List.mem_singleton.mp hy]
        exact fun heq => h (heq ▸ hx)⟩

def delete (s : OrderedSet α) (a : α) : OrderedSet α where
  items := s.items.filter fun b => !(b == a)
  nodup := s.nodup.filter _

def insertAll (s : OrderedSet α) (l : List α) : OrderedSet α := l.foldl insert s

def deleteAll (s : OrderedSet α) (l : List α) : OrderedSet α := l.foldl delete s

def ofList (l : List α) : OrderedSet α := empty.insertAll l

theorem insertAll_cons (s : OrderedSet α) (a : α) (l : List α) :
    s.insertAll (a :: l) = (s.insert a).insertAll l := rfl

theorem deleteAll_cons (s : OrderedSet α) (a : α) (l : List α) :
    s.deleteAll (a :: l) = (s.delete a).deleteAll l := rfl

@[simp] theorem has_iff {s : OrderedSet α} {a : α} : s.has a = true ↔ a ∈ s.items := List.contains_iff_mem

theorem items_insert_of_mem {s : OrderedSet α} {a : α} (h : a ∈ s.items) : (s.insert a).items = s.items :=
  if_pos (List.contains_iff_mem.mpr h)

theorem items_insert_of_not_mem {s : OrderedSet α} {a : α} (h : a ∉ s.items) :
    (s.insert a).items = s.items ++ [a] :=
  if_neg fun hc => h (List.contains_iff_mem.mp hc)

@[simp] theorem mem_insert {s : OrderedSet α} {a b : α} : b ∈ (s.insert a).items ↔ b = a ∨ b ∈ s.items := by
  by_cases h : a ∈ s.items
  · rw [items_insert_of_mem h]
    exact ⟨.inr, fun hb => hb.elim (fun heq => heq ▸ h) id⟩
  · rw [items_insert_of_not_mem h, List.mem_append, List.mem_singleton, or_comm]

@[simp] theorem mem_delete {s : OrderedSet α} {a b : α} : b ∈ (s.delete a).items ↔ b ≠ a ∧ b ∈ s.items := by
  simp [delete, and_comm]

@[simp] theorem mem_insertAll {l : List α} {s : OrderedSet α} {b : α} :
    b ∈ (s.insertAll l).items ↔ b ∈ l ∨ b ∈ s.items := by
  induction l generalizing s with
  | nil => simp [insertAll]
  | cons a l ih =>
    rw [insertAll_cons, ih, mem_insert, List.mem_cons]
    tauto

@[simp] theorem mem_deleteAll {l : List α} {s : OrderedSet α} {b : α} :
    b ∈ (s.deleteAll l).items ↔ b ∉ l ∧ b ∈ s.items := by
  induction l generalizing s with
  | nil => simp [deleteAll]
  | cons a l ih =>
    rw [deleteAll_cons, ih, mem_delete, List.mem_cons]
    tauto

@[simp] theorem mem_ofList {l : List α} {b : α} : b ∈ (ofList l).items ↔ b ∈ l := by
  simp [ofList, empty]

/-! ## Order -/

/-- The elements that satisfy `p` keep their order, whatever is inserted that does not. -/
theorem filter_insert_of_neg {p : α → Bool} {a : α} (h : p a = false) (s : OrderedSet α) :
    (s.insert a).items.filter p = s.items.filter p := by
  by_cases hmem : a ∈ s.items
  · rw [items_insert_of_mem hmem]
  · rw [items_insert_of_not_mem hmem, List.filter_append, List.filter_cons_of_neg (by simp [h]), List.filter_nil,
      List.append_nil]

theorem filter_delete_of_neg {p : α → Bool} {a : α} (h : p a = false) (s : OrderedSet α) :
    (s.delete a).items.filter p = s.items.filter p := by
  rw [delete, List.filter_filter]
  refine List.filter_congr fun b _ => ?_
  cases hb : p b with
  | false => rfl
  | true =>
    have hne : b ≠ a := fun heq => by rw [heq, h] at hb; cases hb
    simp [hne]

theorem filter_insertAll_of_neg {p : α → Bool} {l : List α} (h : ∀ a ∈ l, p a = false) (s : OrderedSet α) :
    (s.insertAll l).items.filter p = s.items.filter p := by
  induction l generalizing s with
  | nil => rfl
  | cons a l ih =>
    rw [insertAll_cons, ih (fun b hb => h b (List.mem_cons_of_mem a hb)),
      filter_insert_of_neg (h a List.mem_cons_self)]

theorem filter_deleteAll_of_neg {p : α → Bool} {l : List α} (h : ∀ a ∈ l, p a = false) (s : OrderedSet α) :
    (s.deleteAll l).items.filter p = s.items.filter p := by
  induction l generalizing s with
  | nil => rfl
  | cons a l ih =>
    rw [deleteAll_cons, ih (fun b hb => h b (List.mem_cons_of_mem a hb)),
      filter_delete_of_neg (h a List.mem_cons_self)]

theorem items_insertAll (s : OrderedSet α) (l : List α) :
    (s.insertAll l).items = s.items ++ (l.filter fun a => !s.items.contains a).eraseDups := by
  induction l generalizing s with
  | nil => simp [insertAll]
  | cons a l ih =>
    rw [insertAll_cons, ih]
    by_cases h : a ∈ s.items
    · rw [items_insert_of_mem h, List.filter_cons_of_neg (by simpa using h)]
    · rw [items_insert_of_not_mem h, List.filter_cons_of_pos (by simpa using h), List.eraseDups_cons,
        List.filter_filter, List.append_assoc, List.singleton_append]
      congr 3
      refine List.filter_congr fun b _ => ?_
      simp [Bool.and_comm, Bool.beq_eq_decide_eq]

/-- The set of a list keeps the first occurrence of each element. -/
theorem items_ofList (l : List α) : (ofList l).items = l.eraseDups := by
  rw [ofList, items_insertAll]
  simp [empty]

/-- A list without repetitions is its own set. -/
theorem items_ofList_of_nodup {l : List α} (h : l.Nodup) : (ofList l).items = l :=
  (items_ofList l).trans (Chunks.eraseDups_of_nodup h)

theorem filter_insertAll {p : α → Bool} {l : List α} {s t : OrderedSet α} (h : s.items.filter p = t.items) :
    (s.insertAll l).items.filter p = (t.insertAll (l.filter p)).items := by
  induction l generalizing s t with
  | nil => exact h
  | cons a l ih =>
    rw [insertAll_cons]
    cases hp : p a with
    | false =>
      rw [List.filter_cons_of_neg (by simp [hp])]
      exact ih ((filter_insert_of_neg hp s).trans h)
    | true =>
      rw [List.filter_cons_of_pos hp, insertAll_cons]
      refine ih ?_
      by_cases ha : a ∈ s.items
      · rw [items_insert_of_mem ha, items_insert_of_mem (h ▸ List.mem_filter.mpr ⟨ha, hp⟩), h]
      · have hat : a ∉ t.items := fun hat => ha (List.mem_filter.mp (h ▸ hat : a ∈ s.items.filter p)).1
        rw [items_insert_of_not_mem ha, items_insert_of_not_mem hat, List.filter_append, h,
          List.filter_cons_of_pos hp, List.filter_nil]

/-- First occurrences may be taken before or after filtering. -/
theorem filter_ofList (p : α → Bool) (l : List α) : (ofList l).items.filter p = (ofList (l.filter p)).items :=
  filter_insertAll rfl

omit [DecidableEq α] in
/-- Sets with the same elements list them in some order each. -/
theorem perm_of_mem_iff {s t : OrderedSet α} (h : ∀ a, a ∈ s.items ↔ a ∈ t.items) : s.items.Perm t.items :=
  (List.perm_ext_iff_of_nodup s.nodup t.nodup).mpr h

end OrderedSet

end Foundations
