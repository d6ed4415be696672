import GarageConsole.Foundations.OrderedMap
import GarageConsole.Foundations.Utf16

/-! # Roles and staged changes

The applied layout gives roles to nodes; a staged change asks for another role of a node, or for none. Garage keeps
one staged change for each node, and none that asks for what the applied layout has: so a node's role in the next
layout is what its staged change asks for, and without one its applied role.
-/

namespace GarageConsole.Layout

open Foundations Utf16

set_option autoImplicit false

/-- What Garage keeps for a node. A gateway has no capacity; any other is a number of bytes, of which the page holds
those that are doubles. -/
structure Role where
  zone : Units
  tags : List Units
  capacity : Option ℕ
  deriving DecidableEq

structure LayoutNodeRole where
  id : String
  zone : Units
  tags : List Units
  capacity : Option ℕ
  deriving DecidableEq

def LayoutNodeRole.role (r : LayoutNodeRole) : Role := { zone := r.zone, tags := r.tags, capacity := r.capacity }

/-- A role as a row of the form has it. The tags of a staged one may be missing from the response. -/
structure EffectiveRole where
  zone : Units
  tags : Option (List Units)
  capacity : Option ℕ
  deriving DecidableEq

def EffectiveRole.role (r : EffectiveRole) : Role :=
  { zone := r.zone, tags := r.tags.getD [], capacity := r.capacity }

def LayoutNodeRole.effective (r : LayoutNodeRole) : EffectiveRole :=
  { zone := r.zone, tags := some r.tags, capacity := r.capacity }

inductive NodeRoleChange where
  | remove (id : String)
  | assign (id : String) (role : EffectiveRole)
  deriving DecidableEq

def NodeRoleChange.id : NodeRoleChange → String
  | .remove id => id
  | .assign id _ => id

/-- The role that is asked for, none for a removal. -/
def NodeRoleChange.assigned : NodeRoleChange → Option EffectiveRole
  | .remove _ => none
  | .assign _ role => some role

structure ClusterLayout where
  roles : List LayoutNodeRole
  stagedRoleChanges : List NodeRoleChange
  distinctRoles : (roles.map LayoutNodeRole.id).Nodup
  distinctChanges : (stagedRoleChanges.map NodeRoleChange.id).Nodup

namespace ClusterLayout

/-- `new Map(data.roles.map((r) => [r.id, r]))` -/
def appliedById (l : ClusterLayout) : OrderedMap String LayoutNodeRole := .ofList (l.roles.map fun r => (r.id, r))

def stagedById (l : ClusterLayout) : OrderedMap String NodeRoleChange :=
  .ofList (l.stagedRoleChanges.map fun c => (c.id, c))

/-- The change asks for what the applied layout has. -/
def asksForApplied (l : ClusterLayout) (c : NodeRoleChange) : Bool :=
  (l.appliedById.get c.id).map LayoutNodeRole.role = c.assigned.map EffectiveRole.role

/-- Garage stages a change. -/
def stage (l : ClusterLayout) (c : NodeRoleChange) : ClusterLayout where
  roles := l.roles
  stagedRoleChanges :=
    (l.stagedRoleChanges.filter fun c' => c'.id ≠ c.id) ++ if l.asksForApplied c then [] else [c]
  distinctRoles := l.distinctRoles
  distinctChanges := by
    have hold := l.distinctChanges.sublist ((List.filter_sublist (p := fun c' => c'.id ≠ c.id)).map NodeRoleChange.id)
    split
    · rwa [List.append_nil]
    · rw [List.map_append, List.map_singleton]
      refine List.nodup_append.mpr ⟨hold, List.nodup_singleton _, fun x hx y hy heq => ?_⟩
      obtain ⟨c', hc', rfl⟩ := List.mem_map.mp hx
      have := (List.mem_filter.mp hc').2
      simp [heq, List.mem_singleton.mp hy] at this

/-- The role of a node in the next layout. -/
def nextRole (l : ClusterLayout) (id : String) : Option Role :=
  match l.stagedById.get id with
  | some c => c.assigned.map EffectiveRole.role
  | none => (l.appliedById.get id).map LayoutNodeRole.role

theorem appliedById_iff {l : ClusterLayout} {id : String} {r : LayoutNodeRole} :
    l.appliedById.get id = some r ↔ r ∈ l.roles ∧ r.id = id := by
  rw [appliedById, OrderedMap.get_ofList_map l.distinctRoles]
  exact ⟨fun ⟨r', hr', hid, heq⟩ => heq ▸ ⟨hr', hid⟩, fun ⟨hr, hid⟩ => ⟨r, hr, hid, rfl⟩⟩

theorem stagedById_iff {l : ClusterLayout} {id : String} {c : NodeRoleChange} :
    l.stagedById.get id = some c ↔ c ∈ l.stagedRoleChanges ∧ c.id = id := by
  rw [stagedById, OrderedMap.get_ofList_map l.distinctChanges]
  exact ⟨fun ⟨c', hc', hid, heq⟩ => heq ▸ ⟨hc', hid⟩, fun ⟨hc, hid⟩ => ⟨c, hc, hid, rfl⟩⟩

/-- Staging settles the entry of its node and leaves the others. -/
theorem stagedById_stage (l : ClusterLayout) (c : NodeRoleChange) (id : String) :
    (l.stage c).stagedById.get id =
      if id = c.id then if l.asksForApplied c then none else some c else l.stagedById.get id := by
  refine Option.ext fun c' => ?_
  rw [stagedById_iff, stage, List.mem_append, List.mem_filter]
  by_cases hid : id = c.id
  · rw [if_pos hid]
    split
    · simp [hid]
    · simp only [decide_eq_true_eq, List.mem_singleton, Option.some_inj, hid]
      constructor
      · intro ⟨h, hc'⟩
        exact h.elim (fun h => absurd hc' h.2) fun h => h.symm
      · intro h
        rw [← h]
        exact ⟨.inr rfl, rfl⟩
  · rw [if_neg hid, stagedById_iff]
    split
    · simp only [decide_eq_true_eq, List.not_mem_nil, or_false]
      exact ⟨fun ⟨⟨hmem, _⟩, h⟩ => ⟨hmem, h⟩, fun ⟨hmem, h⟩ => ⟨⟨hmem, h ▸ hid⟩, h⟩⟩
    · simp only [decide_eq_true_eq, List.mem_singleton]
      constructor
      · intro ⟨h, hc'⟩
        exact h.elim (fun h => ⟨h.1, hc'⟩) fun h => absurd (h ▸ hc'.symm) hid
      · exact fun ⟨hmem, h⟩ => ⟨.inl ⟨hmem, h ▸ hid⟩, h⟩

/-- The next layout has for the node what the change asks for. -/
theorem nextRole_stage (l : ClusterLayout) (c : NodeRoleChange) (id : String) :
    (l.stage c).nextRole id = if id = c.id then c.assigned.map EffectiveRole.role else l.nextRole id := by
  have happlied : (l.stage c).appliedById = l.appliedById := rfl
  rw [nextRole, stagedById_stage, happlied]
  by_cases hid : id = c.id
  · rw [if_pos hid, if_pos hid]
    cases hasks : l.asksForApplied c with
    | true =>
      rw [asksForApplied, decide_eq_true_eq] at hasks
      rw [hid, if_pos rfl, hasks]
    | false => rfl
  · rw [if_neg hid, if_neg hid]
    rfl

end ClusterLayout

end GarageConsole.Layout
