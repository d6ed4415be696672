import Mathlib.Data.List.Perm.Basic
import GarageConsole.Foundations.GoJson

/-! # Loops over a map

A loop over a map meets its entries in any order. Where the round for an entry changes only what is kept under
the key of the entry, the order does not matter: after the loop a key holds what the round for it made of what
it held before (`foldl_keyWise`).
-/

namespace Foundations.Keyed

open GoJson

set_option autoImplicit false

variable {α β σ : Type}

/-- The entries of a map in the order in which a loop meets them. -/
structure Iteration (m : GoMap α) where
  entries : List (String × α)
  perm : entries.Perm m.entries

theorem Iteration.nodup {m : GoMap α} (it : Iteration m) : (it.entries.map Prod.fst).Nodup :=
  (it.perm.map Prod.fst).nodup_iff.mpr m.nodup

theorem lookup_eq_some_iff {l : List (String × α)} (hnodup : (l.map Prod.fst).Nodup) {key : String} {v : α} :
    l.lookup key = some v ↔ (key, v) ∈ l :=
  (GoMap.mem_entries_iff ⟨l, hnodup⟩).symm

theorem lookup_of_perm {l l' : List (String × α)} (hnodup : (l'.map Prod.fst).Nodup) (h : l.Perm l') (key : String) :
    l.lookup key = l'.lookup key := by
  have hnodup' := (h.map Prod.fst).nodup_iff.mpr hnodup
  refine Option.ext fun v => ?_
  rw [lookup_eq_some_iff hnodup', lookup_eq_some_iff hnodup, h.mem_iff]

theorem Iteration.lookup {m : GoMap α} (it : Iteration m) (key : String) : it.entries.lookup key = m.get key :=
  lookup_of_perm m.nodup it.perm key

/-- A round changes what is kept under the key of its entry, and nothing else. -/
def KeyWise (view : σ → String → β) (round : σ → String × α → σ) (effect : String → α → β → β) : Prop :=
  ∀ s entry key, view (round s entry) key = if key = entry.1 then effect key entry.2 (view s key) else view s key

theorem foldl_keyWise {view : σ → String → β} {round : σ → String × α → σ} {effect : String → α → β → β}
    (h : KeyWise view round effect) {l : List (String × α)} (hnodup : (l.map Prod.fst).Nodup) (s : σ) (key : String) :
    view (l.foldl round s) key = (l.lookup key).elim (view s key) fun v => effect key v (view s key) := by
  induction l generalizing s with
  | nil => rfl
  | cons entry l ih =>
    obtain ⟨k, w⟩ := entry
    rw [List.map_cons, List.nodup_cons] at hnodup
    rw [List.foldl_cons, ih hnodup.2, h, List.lookup_cons]
    by_cases hk : key = k
    · -- the key does not come again
      subst hk
      have hnone : l.lookup key = none := by
        rw [Option.eq_none_iff_forall_ne_some]
        intro v hv
        exact hnodup.1 (List.mem_map.mpr ⟨_, (lookup_eq_some_iff hnodup.2).mp hv, rfl⟩)
      rw [if_pos rfl, beq_self_eq_true, hnone]
      rfl
    · have hbeq : (key == k) = false := beq_eq_false_iff_ne.mpr hk
      rw [if_neg hk, hbeq]

/-- A loop over a map, whatever the order. -/
theorem foldl_iteration {view : σ → String → β} {round : σ → String × α → σ} {effect : String → α → β → β}
    (h : KeyWise view round effect) {m : GoMap α} (it : Iteration m) (s : σ) (key : String) :
    view (it.entries.foldl round s) key = (m.get key).elim (view s key) fun v => effect key v (view s key) := by
  rw [foldl_keyWise h it.nodup, it.lookup]

/-! ## Gathering from the entries -/

/-- What a loop gathers for one key is what it gathers from the entry of that key. -/
theorem filter_flatMap_keyed {l : List (String × α)} (hnodup : (l.map Prod.fst).Nodup) {f : String × α → List β}
    {keyOf : β → String} (hf : ∀ entry, ∀ b ∈ f entry, keyOf b = entry.1) {p : β → Bool} {key : String}
    (hp : ∀ b, p b = true → keyOf b = key) :
    (l.flatMap f).filter p = ((l.lookup key).elim [] fun v => f (key, v)).filter p := by
  have hnone {entry : String × α} (hne : entry.1 ≠ key) : (f entry).filter p = [] := by
    rw [List.filter_eq_nil_iff]
    exact fun b hb hpb => hne ((hf entry b hb).symm.trans (hp b hpb))
  induction l with
  | nil => rfl
  | cons entry l ih =>
    obtain ⟨k, v⟩ := entry
    rw [List.map_cons, List.nodup_cons] at hnodup
    rw [List.flatMap_cons, List.filter_append, List.lookup_cons]
    by_cases hk : key = k
    · subst hk
      have hrest : (l.flatMap f).filter p = [] := by
        rw [List.filter_flatMap, List.flatMap_eq_nil_iff]
        exact fun entry hentry => hnone fun heq => hnodup.1 (List.mem_map.mpr ⟨entry, hentry, heq⟩)
      rw [hrest, List.append_nil, beq_self_eq_true]
      rfl
    · rw [hnone (Ne.symm hk), List.nil_append, ih hnodup.2, beq_eq_false_iff_ne.mpr hk]

end Foundations.Keyed
