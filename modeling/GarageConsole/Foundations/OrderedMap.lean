import Mathlib.Data.List.Nodup
import Mathlib.Tactic.Common

/-! # Maps that remember the order of insertion

An `OrderedMap` lists its entries in the order in which their keys were first inserted; a key that is there already
keeps its place. Which entries it has is settled by `get` alone (`mem_entries_iff`).
-/

namespace Foundations

set_option autoImplicit false

structure OrderedMap (κ α : Type) where
  entries : List (κ × α)
  nodup : (entries.map Prod.fst).Nodup

namespace OrderedMap

variable {κ α : Type} [DecidableEq κ]

def empty : OrderedMap κ α := ⟨[], List.nodup_nil⟩

def keys (m : OrderedMap κ α) : List κ := m.entries.map Prod.fst

def values (m : OrderedMap κ α) : List α := m.entries.map Prod.snd

def get (m : OrderedMap κ α) (k : κ) : Option α := (m.entries.find? fun e => e.1 = k).map Prod.snd

def update (k : κ) (v : α) (e : κ × α) : κ × α := if e.1 = k then (k, v) else e

theorem fst_update (k : κ) (v : α) (e : κ × α) : (update k v e).1 = e.1 := by
  unfold update
  split
  · exact (‹e.1 = k›).symm
  · rfl

def set (m : OrderedMap κ α) (k : κ) (v : α) : OrderedMap κ α where
  entries := if k ∈ m.keys then m.entries.map (update k v) else m.entries ++ [(k, v)]
  nodup := by
    split
    · have hfst : (m.entries.map (update k v)).map Prod.fst = m.entries.map Prod.fst := by
        rw [List.map_map]
        exact List.map_congr_left fun e _ => fst_update k v e
      exact hfst ▸ m.nodup
    · rename_i hk
      rw [List.map_append, List.map_singleton]
      refine List.nodup_append.mpr ⟨m.nodup, List.nodup_singleton k, fun x hx y hy heq => hk ?_⟩
      rwa [heq, List.mem_singleton.mp hy] at hx

def delete (m : OrderedMap κ α) (k : κ) : OrderedMap κ α where
  entries := m.entries.filter fun e => e.1 ≠ k
  nodup := m.nodup.sublist (List.filter_sublist.map Prod.fst)

def ofList (l : List (κ × α)) : OrderedMap κ α := l.foldl (fun m e => m.set e.1 e.2) empty

theorem mem_entries_iff {m : OrderedMap κ α} {k : κ} {v : α} : (k, v) ∈ m.entries ↔ m.get k = some v := by
  obtain ⟨entries, hnodup⟩ := m
  unfold get
  induction entries with
  | nil => simp
  | cons e entries ih =>
    rw [List.map_cons, List.nodup_cons] at hnodup
    rw [List.mem_cons, List.find?_cons, ih hnodup.2]
    by_cases hk : e.1 = k
    · rw [decide_eq_true hk, Option.map_some, Option.some_inj]
      refine ⟨fun h => h.elim (fun heq => by rw [← heq]) fun hget => ?_, fun h => .inl (by rw [← hk, ← h])⟩
      have hmem : (k, v) ∈ entries := (ih hnodup.2).mpr hget
      exact absurd (List.mem_map.mpr ⟨_, hmem, hk.symm⟩) hnodup.1
    · rw [decide_eq_false hk]
      refine ⟨fun h => h.elim (fun heq => absurd (by rw [← heq]) hk) id, .inr⟩

theorem mem_keys_iff {m : OrderedMap κ α} {k : κ} : k ∈ m.keys ↔ ∃ v, m.get k = some v := by
  simp only [keys, List.mem_map, ← mem_entries_iff]
  exact ⟨fun ⟨e, he, hk⟩ => ⟨e.2, hk ▸ he⟩, fun ⟨v, hv⟩ => ⟨(k, v), hv, rfl⟩⟩

theorem get_set (m : OrderedMap κ α) (k k' : κ) (v : α) :
    (m.set k v).get k' = if k' = k then some v else m.get k' := by
  refine Option.ext fun w => ?_
  rw [← mem_entries_iff, set]
  split
  · rename_i hmem
    rw [List.mem_map]
    constructor
    · intro ⟨e, he, heq⟩
      unfold update at heq
      split at heq
      · obtain ⟨rfl, rfl⟩ := Prod.mk.inj heq
        rw [if_pos rfl]
      · rename_i hne
        obtain rfl := heq
        rw [if_neg hne]
        exact mem_entries_iff.mp he
    · intro h
      by_cases hk : k' = k
      · rw [if_pos hk, Option.some_inj] at h
        obtain ⟨u, hu⟩ := mem_keys_iff.mp hmem
        exact ⟨(k, u), mem_entries_iff.mpr hu, by rw [update, if_pos rfl, hk, h]⟩
      · rw [if_neg hk] at h
        exact ⟨(k', w), mem_entries_iff.mpr h, if_neg hk⟩
  · rename_i hmem
    rw [List.mem_append, mem_entries_iff, List.mem_singleton, Prod.mk.injEq]
    by_cases hk : k' = k
    · have hnone : m.get k ≠ some w := fun h => hmem (mem_keys_iff.mpr ⟨w, h⟩)
      simp [hk, hnone, eq_comm]
    · simp [hk]

theorem get_delete (m : OrderedMap κ α) (k k' : κ) : (m.delete k).get k' = if k' = k then none else m.get k' := by
  refine Option.ext fun w => ?_
  rw [← mem_entries_iff, delete, List.mem_filter, mem_entries_iff]
  by_cases hk : k' = k
  · simp [hk]
  · simp [hk]

theorem entries_ofList_append {l : List (κ × α)} : ∀ {m : OrderedMap κ α}, ((m.entries ++ l).map Prod.fst).Nodup →
    (l.foldl (fun m e => m.set e.1 e.2) m).entries = m.entries ++ l := by
  induction l with
  | nil =>
    intro m h
    rw [List.append_nil]
    rfl
  | cons e l ih =>
    intro m h
    have hnew : e.1 ∉ m.keys := by
      rw [List.map_append, List.map_cons] at h
      exact fun hmem => (List.nodup_append.mp h).2.2 e.1 hmem e.1 List.mem_cons_self rfl
    have hset : (m.set e.1 e.2).entries = m.entries ++ [e] := if_neg hnew
    rw [List.foldl_cons, ih, hset, ← List.append_cons]
    rwa [hset, ← List.append_cons]

theorem entries_ofList {l : List (κ × α)} (h : (l.map Prod.fst).Nodup) : (ofList l).entries = l :=
  entries_ofList_append (m := empty) h

/-- A map from a list of things with distinct keys. -/
theorem get_ofList_map {β : Type} {key : β → κ} {val : β → α} {l : List β} (h : (l.map key).Nodup) {k : κ} {v : α} :
    (ofList (l.map fun b => (key b, val b))).get k = some v ↔ ∃ b ∈ l, key b = k ∧ val b = v := by
  have hnodup : ((l.map fun b => (key b, val b)).map Prod.fst).Nodup := by
    rw [List.map_map]
    exact h
  rw [← mem_entries_iff, entries_ofList hnodup, List.mem_map]
  simp only [Prod.mk.injEq]

end OrderedMap

end Foundations
