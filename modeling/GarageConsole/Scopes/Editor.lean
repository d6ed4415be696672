import GarageConsole.Scopes.AdminScopes

/-! # The scope editor

A box of the editor turns one endpoint or the endpoints of one category on or off. `setEndpoints` rebuilds the
whole scope for it: the known endpoints in the order of the categories, then what the console does not know.
-/

namespace GarageConsole.Scopes

open Foundations Foundations.Utf16

set_option autoImplicit false

def setEndpoints (value endpoints : List Units) (on : Bool) : List Units :=
  let next := (OrderedSet.ofList value).delete allScope
  let next := if on then next.insertAll endpoints else next.deleteAll endpoints
  (allAdminEndpoints.filter fun e => next.has e) ++ unknownScopeEntries next.items

/-- What one box of the editor does: the boxes are those of the categories and of their endpoints. -/
structure Toggle where
  endpoints : List Units
  on : Bool
  known : ∀ e ∈ endpoints, e ∈ allAdminEndpoints

def Toggle.ofCategory (c : AdminScopeCategory) (hc : c ∈ adminScopeCategories) (on : Bool) : Toggle where
  endpoints := c.endpoints
  on := on
  known _ he := List.mem_flatMap.mpr ⟨c, hc, he⟩

def Toggle.ofEndpoint (e : Units) (he : e ∈ allAdminEndpoints) (on : Bool) : Toggle where
  endpoints := [e]
  on := on
  known _ hmem := List.mem_singleton.mp hmem ▸ he

def toggle (value : List Units) (t : Toggle) : List Units := setEndpoints value t.endpoints t.on

def toggleAll (initial : List Units) (ts : List Toggle) : List Units := ts.foldl toggle initial

/-! ## One toggle -/

theorem mem_toggle {value : List Units} {t : Toggle} {e : Units} (he : e ∈ allAdminEndpoints) :
    e ∈ toggle value t ↔ if e ∈ t.endpoints then t.on = true else e ∈ value := by
  have hstar : e ≠ allScope := fun heq => allScope_not_mem (heq ▸ he)
  have hunknown (l : List Units) : e ∉ unknownScopeEntries l := fun h => (mem_unknownScopeEntries.mp h).2.2 he
  rw [toggle, setEndpoints, List.mem_append, or_iff_left (hunknown _), List.mem_filter, and_iff_right he,
    OrderedSet.has_iff]
  cases t.on with
  | true =>
    simp [hstar]
    tauto
  | false => simp [hstar]

theorem toggle_eq (value : List Units) (t : Toggle) : toggle value t =
    (allAdminEndpoints.filter fun e => (toggle value t).contains e) ++
      (OrderedSet.ofList (unknownScopeEntries value)).items := by
  have hneg : ∀ e ∈ t.endpoints, (!(e == allScope) && !allAdminEndpoints.contains e) = false := by
    intro e he
    simp [t.known e he]
  have hunknown : unknownScopeEntries (if t.on then ((OrderedSet.ofList value).delete allScope).insertAll t.endpoints
      else ((OrderedSet.ofList value).delete allScope).deleteAll t.endpoints).items =
      (OrderedSet.ofList (unknownScopeEntries value)).items := by
    rw [unknownScopeEntries, unknownScopeEntries, ← OrderedSet.filter_ofList]
    cases t.on with
    | true => exact (OrderedSet.filter_insertAll_of_neg hneg _).trans (OrderedSet.filter_delete_of_neg (by simp) _)
    | false => exact (OrderedSet.filter_deleteAll_of_neg hneg _).trans (OrderedSet.filter_delete_of_neg (by simp) _)
  conv_lhs => rw [toggle, setEndpoints, hunknown]
  congr 1
  refine List.filter_congr fun e he => ?_
  have hnot (l : List Units) : e ∉ unknownScopeEntries l := fun h => (mem_unknownScopeEntries.mp h).2.2 he
  rw [Bool.eq_iff_iff, List.contains_iff_mem, toggle, setEndpoints, List.mem_append, or_iff_left (hnot _),
    List.mem_filter, and_iff_right he]

theorem unknown_toggle (value : List Units) (t : Toggle) :
    unknownScopeEntries (toggle value t) = (OrderedSet.ofList (unknownScopeEntries value)).items := by
  rw [toggle_eq, unknownScopeEntries, List.filter_append, List.filter_eq_nil_iff.mpr, List.nil_append,
    List.filter_eq_self]
  · intro e he
    have := mem_unknownScopeEntries.mp (OrderedSet.mem_ofList.mp he)
    simp [this]
  · intro e he
    have := (List.mem_filter.mp he).1
    simp [this]

/-! ## Sequences of toggles -/

/-- Whether a known endpoint ends up in the scope: as the last toggle of it says, else as at first. -/
def endsOn (initial : List Units) (ts : List Toggle) (e : Units) : Bool :=
  match (ts.filter fun t => t.endpoints.contains e).getLast? with
  | some t => t.on
  | none => initial.contains e

theorem endsOn_cons {initial : List Units} {t : Toggle} {e : Units} (he : e ∈ allAdminEndpoints) (ts : List Toggle) :
    endsOn initial (t :: ts) e = endsOn (toggle initial t) ts e := by
  have hmem : (toggle initial t).contains e = if e ∈ t.endpoints then t.on else initial.contains e := by
    rw [Bool.eq_iff_iff, List.contains_iff_mem, mem_toggle he]
    split
    · rfl
    · exact List.contains_iff_mem.symm
  unfold endsOn
  by_cases h : e ∈ t.endpoints
  · rw [List.filter_cons_of_pos (by simpa using h), List.getLast?_cons, hmem, if_pos h]
    cases (ts.filter fun t => t.endpoints.contains e).getLast? with
    | none => rfl
    | some t' => rfl
  · rw [List.filter_cons_of_neg (by simpa using h), hmem, if_neg h]

theorem mem_toggleAll {initial : List Units} {ts : List Toggle} {e : Units} (he : e ∈ allAdminEndpoints) :
    e ∈ toggleAll initial ts ↔ endsOn initial ts e = true := by
  induction ts generalizing initial with
  | nil => exact List.contains_iff_mem.symm
  | cons t ts ih => rw [toggleAll, List.foldl_cons, ← toggleAll, ih, endsOn_cons he]

theorem toggleAll_cons (initial : List Units) (t : Toggle) (ts : List Toggle) : toggleAll initial (t :: ts) =
    (allAdminEndpoints.filter fun e => endsOn initial (t :: ts) e) ++
      (OrderedSet.ofList (unknownScopeEntries initial)).items := by
  induction ts generalizing initial t with
  | nil =>
    rw [toggleAll, List.foldl_cons, List.foldl_nil, toggle_eq]
    congr 1
    refine List.filter_congr fun e he => ?_
    rw [endsOn_cons he]
    rfl
  | cons t' ts ih =>
    rw [toggleAll, List.foldl_cons, ← toggleAll, ih, unknown_toggle,
      OrderedSet.items_ofList_of_nodup (OrderedSet.nodup _)]
    congr 1
    refine List.filter_congr fun e he => ?_
    rw [endsOn_cons (t := t) he]

/-- Two neighbouring toggles that share no endpoint may change places. -/
theorem endsOn_swap (initial : List Units) {t t' : Toggle} (h : ∀ e ∈ t.endpoints, e ∉ t'.endpoints)
    (ts ts' : List Toggle) (e : Units) :
    endsOn initial (ts ++ t :: t' :: ts') e = endsOn initial (ts ++ t' :: t :: ts') e := by
  have hfilter : ((ts ++ t :: t' :: ts').filter fun t => t.endpoints.contains e) =
      (ts ++ t' :: t :: ts').filter fun t => t.endpoints.contains e := by
    rw [List.filter_append, List.filter_append]
    congr 1
    by_cases he : e ∈ t.endpoints
    · simp [he, h e he]
    · simp [List.filter_cons, he]
  rw [endsOn, hfilter, ← endsOn]

theorem toggleAll_eq {initial : List Units} {ts : List Toggle} (h : ts ≠ []) : toggleAll initial ts =
    (allAdminEndpoints.filter fun e => endsOn initial ts e) ++
      (OrderedSet.ofList (unknownScopeEntries initial)).items := by
  obtain ⟨t, ts, rfl⟩ := List.exists_cons_of_ne_nil h
  exact toggleAll_cons initial t ts

theorem toggleAll_nodup (initial : List Units) (t : Toggle) (ts : List Toggle) :
    (toggleAll initial (t :: ts)).Nodup := by
  rw [toggleAll_cons]
  refine List.nodup_append.mpr ⟨allAdminEndpoints_nodup.filter _, OrderedSet.nodup _, ?_⟩
  intro a ha b hb hab
  have hunknown := mem_unknownScopeEntries.mp (OrderedSet.mem_ofList.mp hb)
  exact hunknown.2.2 (hab ▸ (List.mem_filter.mp ha).1)

theorem mem_toggleAll_unknown (initial : List Units) (t : Toggle) (ts : List Toggle) {e : Units}
    (he : e ∉ allAdminEndpoints) : e ∈ toggleAll initial (t :: ts) ↔ e ∈ initial ∧ e ≠ allScope := by
  rw [toggleAll_cons, List.mem_append, OrderedSet.mem_ofList, mem_unknownScopeEntries]
  constructor
  · rintro (hknown | ⟨hmem, hall, -⟩)
    · exact absurd (List.mem_filter.mp hknown).1 he
    · exact ⟨hmem, hall⟩
  · exact fun ⟨hmem, hall⟩ => .inr ⟨hmem, hall, he⟩

/-- **Toggling endpoints keeps what the console does not know.** A known endpoint is in the scope as its last
toggle says; after at least one toggle the known endpoints stand in the order of the categories, once each, and
after them the unknown entries of the initial scope, each at its first occurrence. -/
theorem toggles_exact (initial : List Units) :
    (∀ ts, ∀ e ∈ allAdminEndpoints, e ∈ toggleAll initial ts ↔ endsOn initial ts e = true) ∧
      (∀ t ts, toggleAll initial (t :: ts) = (allAdminEndpoints.filter fun e => endsOn initial (t :: ts) e) ++
        (OrderedSet.ofList (unknownScopeEntries initial)).items) ∧
      (∀ t ts, ∀ e, e ∉ allAdminEndpoints → (e ∈ toggleAll initial (t :: ts) ↔ e ∈ initial ∧ e ≠ allScope)) ∧
      (∀ t ts, (toggleAll initial (t :: ts)).Nodup) ∧
      ∀ t t' : Toggle, (∀ e ∈ t.endpoints, e ∉ t'.endpoints) → ∀ ts ts',
        toggleAll initial (ts ++ t :: t' :: ts') = toggleAll initial (ts ++ t' :: t :: ts') := by
  refine ⟨fun ts e he => mem_toggleAll he, toggleAll_cons initial,
    fun t ts e he => mem_toggleAll_unknown initial t ts he, toggleAll_nodup initial, ?_⟩
  intro t t' hdisjoint ts ts'
  rw [toggleAll_eq (by simp), toggleAll_eq (by simp)]
  congr 1
  exact List.filter_congr fun e _ => endsOn_swap initial hdisjoint ts ts' e

end GarageConsole.Scopes
