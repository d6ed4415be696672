import GarageConsole.Foundations.Keyed
import GarageConsole.Foundations.OrderedSet
import GarageConsole.Layout.Draft

/-! # Reverts and totals

A staged change is taken back by staging what the applied layout has. The next layout is worked out three times: as
a map for the totals, as the rows of the form and as the rows of the table. They have the same roles
(`drafts_perm_next`, `rows_perm_next`), whatever was staged or taken back before.
-/

namespace GarageConsole.Layout

open Foundations

set_option autoImplicit false

/-! ## Taking back -/

def revertChangeFor (id : String) (applied : Option LayoutNodeRole) (staged : Option NodeRoleChange) :
    Option NodeRoleChange :=
  match staged, applied with
  | none, _ => none
  | some _, none => some (.remove id)
  | some _, some r => some (.assign id { zone := r.zone, tags := some r.tags, capacity := r.capacity })

/-- The operator takes back what is staged for a node. -/
def revertNode (l : ClusterLayout) (id : String) : ClusterLayout :=
  (revertChangeFor id (l.appliedById.get id) (l.stagedById.get id)).elim l l.stage

theorem stagedRoleChanges_stage {l : ClusterLayout} {c : NodeRoleChange} (h : l.asksForApplied c = true) :
    (l.stage c).stagedRoleChanges = l.stagedRoleChanges.filter fun c' => c'.id ≠ c.id := by
  have hstage : (l.stage c).stagedRoleChanges =
      (l.stagedRoleChanges.filter fun c' => c'.id ≠ c.id) ++ if l.asksForApplied c then [] else [c] := rfl
  rw [hstage, h, if_pos rfl, List.append_nil]

/-- Exactly the entry of the node goes. -/
theorem revertChangeFor_spec {l : ClusterLayout} {c : NodeRoleChange} (hc : c ∈ l.stagedRoleChanges) :
    ∃ change, revertChangeFor c.id (l.appliedById.get c.id) (l.stagedById.get c.id) = some change ∧
      (l.stage change).roles = l.roles ∧
      (l.stage change).stagedRoleChanges = l.stagedRoleChanges.filter fun c' => c'.id ≠ c.id := by
  rw [ClusterLayout.stagedById_iff.mpr ⟨hc, rfl⟩]
  cases happlied : l.appliedById.get c.id with
  | none =>
    refine ⟨.remove c.id, rfl, rfl, stagedRoleChanges_stage ?_⟩
    rw [ClusterLayout.asksForApplied, decide_eq_true_eq, NodeRoleChange.id, happlied]
    rfl
  | some r =>
    refine ⟨.assign c.id _, rfl, rfl, stagedRoleChanges_stage ?_⟩
    rw [ClusterLayout.asksForApplied, decide_eq_true_eq, NodeRoleChange.id, happlied]
    rfl

theorem revertNode_spec (l : ClusterLayout) (id : String) : (revertNode l id).roles = l.roles ∧
    (revertNode l id).stagedRoleChanges = l.stagedRoleChanges.filter fun c => c.id ≠ id := by
  cases hstaged : l.stagedById.get id with
  | none =>
    rw [revertNode, hstaged, revertChangeFor, Option.elim_none]
    refine ⟨rfl, (List.filter_eq_self.mpr fun c hc => ?_).symm⟩
    rw [decide_eq_true_eq]
    intro hid
    rw [ClusterLayout.stagedById_iff.mpr ⟨hc, hid⟩] at hstaged
    exact Option.some_ne_none c hstaged
  | some c =>
    obtain ⟨hc, rfl⟩ := ClusterLayout.stagedById_iff.mp hstaged
    obtain ⟨change, hchange, hspec⟩ := revertChangeFor_spec hc
    rw [revertNode, hchange, Option.elim_some]
    exact hspec

/-- Any nodes are taken back, in any order. -/
theorem foldl_revertNode (ids : List String) (l : ClusterLayout) : (ids.foldl revertNode l).roles = l.roles ∧
    (ids.foldl revertNode l).stagedRoleChanges = l.stagedRoleChanges.filter fun c => c.id ∉ ids := by
  induction ids generalizing l with
  | nil => exact ⟨rfl, (List.filter_eq_self.mpr fun c _ => by simp).symm⟩
  | cons id ids ih =>
    obtain ⟨hroles, hstaged⟩ := revertNode_spec l id
    rw [List.foldl_cons, (ih _).1, (ih _).2, hroles, hstaged, List.filter_filter]
    refine ⟨rfl, List.filter_congr fun c _ => ?_⟩
    rw [← Bool.decide_and, decide_eq_decide, List.mem_cons, not_or, and_comm]

/-! ## Totals -/

structure LayoutTotals where
  assignedNodes : ℕ
  zones : ℕ
  capacity : ℕ
  deriving DecidableEq

structure TotalsState where
  assignedNodes : ℕ := 0
  capacity : ℕ := 0
  zones : OrderedSet Utf16.Units := .empty

def addRole (s : TotalsState) (r : EffectiveRole) : TotalsState where
  assignedNodes := s.assignedNodes + 1
  zones := s.zones.insert r.zone
  capacity := Double.ofNat (s.capacity + r.capacity.getD 0)

def totalsOf (roles : List EffectiveRole) : LayoutTotals :=
  let s := roles.foldl addRole {}
  { assignedNodes := s.assignedNodes, zones := s.zones.items.length, capacity := s.capacity }

def applyChange (next : OrderedMap String EffectiveRole) : NodeRoleChange → OrderedMap String EffectiveRole
  | .remove id => next.delete id
  | .assign id role => next.set id role

def nextRoles (roles : List LayoutNodeRole) (staged : List NodeRoleChange) : OrderedMap String EffectiveRole :=
  staged.foldl applyChange (.ofList (roles.map fun r => (r.id, r.effective)))

/-- The totals before and after the staged changes. -/
def layoutTotals (roles : List LayoutNodeRole) (staged : List NodeRoleChange) : LayoutTotals × LayoutTotals :=
  (totalsOf (roles.map LayoutNodeRole.effective), totalsOf (nextRoles roles staged).values)

/-! ## Rows -/

structure ClusterNode where
  id : String
  hostname : Option String

structure ClusterStatus where
  nodes : List ClusterNode
  distinct : (nodes.map ClusterNode.id).Nodup

/-- The rows of the form: the nodes of the status, and the others that have a role or a staged change. -/
def startEditing (status : ClusterStatus) (l : ClusterLayout) : List RoleDraft :=
  let known := status.nodes.map ClusterNode.id
  let others := (OrderedSet.ofList (l.appliedById.keys ++ l.stagedById.keys)).items.filter fun id => id ∉ known
  status.nodes.map (fun n => rowOf l n.id n.hostname) ++ others.map (fun id => rowOf l id none)

structure LayoutRoleRow where
  id : String
  hostname : Option String
  applied : LayoutNodeRole
  staged : Option NodeRoleChange
  effective : Option EffectiveRole

def layoutRoleRows (roles : List LayoutNodeRole) (stagedById : OrderedMap String NodeRoleChange)
    (hostnameOf : String → Option String) : List LayoutRoleRow :=
  roles.map fun r =>
    let staged := stagedById.get r.id
    { id := r.id
      hostname := hostnameOf r.id
      applied := r
      staged := staged
      effective := match staged with
        | none => some r.effective
        | some c => c.assigned }

/-! ## One next layout -/

/-- The role that a row has for a node in the next layout. -/
def ClusterLayout.effectiveRole (l : ClusterLayout) (id : String) : Option EffectiveRole :=
  match l.stagedById.get id with
  | some c => c.assigned
  | none => (l.appliedById.get id).map LayoutNodeRole.effective

theorem rowOf_effective (l : ClusterLayout) (id : String) (hostname : Option String) :
    (rowOf l id hostname).effective = l.effectiveRole id := by
  rw [rowOf, draftFromNode, ClusterLayout.effectiveRole]
  cases l.stagedById.get id with
  | none => rfl
  | some c => cases c <;> rfl

theorem effective_of_mem_drafts {status : ClusterStatus} {l : ClusterLayout} {d : RoleDraft}
    (h : d ∈ startEditing status l) : d.effective = l.effectiveRole d.id := by
  rw [startEditing, List.mem_append, List.mem_map, List.mem_map] at h
  obtain ⟨n, -, rfl⟩ | ⟨id, -, rfl⟩ := h
  · exact rowOf_effective l n.id n.hostname
  · exact rowOf_effective l id none

theorem effective_of_mem_rows {l : ClusterLayout} {hostnameOf : String → Option String} {row : LayoutRoleRow}
    (h : row ∈ layoutRoleRows l.roles l.stagedById hostnameOf) : row.effective = l.effectiveRole row.id := by
  obtain ⟨r, hr, rfl⟩ := List.mem_map.mp h
  dsimp only
  rw [ClusterLayout.effectiveRole, ClusterLayout.appliedById_iff.mpr ⟨hr, rfl⟩]
  cases l.stagedById.get r.id <;> rfl

theorem get_nextRoles (l : ClusterLayout) (id : String) :
    (nextRoles l.roles l.stagedRoleChanges).get id = l.effectiveRole id := by
  let round (m : OrderedMap String EffectiveRole) (e : String × NodeRoleChange) : OrderedMap String EffectiveRole :=
    match e.2.assigned with
    | none => m.delete e.1
    | some role => m.set e.1 role
  have hround : ∀ m c, applyChange m c = round m (c.id, c) := by
    intro m c
    cases c <;> rfl
  have hkeyWise : Keyed.KeyWise OrderedMap.get round fun _ c _ => c.assigned := by
    intro m e key
    dsimp only [round]
    cases e.2.assigned with
    | none => rw [OrderedMap.get_delete]
    | some role => rw [OrderedMap.get_set]
  have hloop : nextRoles l.roles l.stagedRoleChanges = (l.stagedRoleChanges.map fun c => (c.id, c)).foldl round
      (.ofList (l.roles.map fun r => (r.id, r.effective))) := by
    rw [nextRoles, List.foldl_map, funext₂ hround]
  have hnodup : ((l.stagedRoleChanges.map fun c => (c.id, c)).map Prod.fst).Nodup := by
    rw [List.map_map]
    exact l.distinctChanges
  have hlookup : (l.stagedRoleChanges.map fun c => (c.id, c)).lookup id = l.stagedById.get id := by
    refine Option.ext fun c => ?_
    rw [Keyed.lookup_eq_some_iff hnodup, ClusterLayout.stagedById_iff, List.mem_map]
    simp only [Prod.mk.injEq]
    exact ⟨fun ⟨c', hc', hid, heq⟩ => heq ▸ ⟨hc', hid⟩, fun ⟨hc, hid⟩ => ⟨c, hc, hid, rfl⟩⟩
  have happlied : (OrderedMap.ofList (l.roles.map fun r => (r.id, r.effective))).get id =
      (l.appliedById.get id).map LayoutNodeRole.effective := by
    refine Option.ext fun role => ?_
    rw [OrderedMap.get_ofList_map l.distinctRoles, Option.map_eq_some_iff]
    simp only [ClusterLayout.appliedById_iff, and_assoc]
  rw [hloop, Keyed.foldl_keyWise hkeyWise hnodup, hlookup, happlied, ClusterLayout.effectiveRole]
  cases l.stagedById.get id <;> rfl

/-- Nodes that take in all that have a role have the roles of the next layout. -/
theorem roles_perm_next (l : ClusterLayout) {ids : List String} (hnodup : ids.Nodup)
    (hids : ∀ id, l.effectiveRole id ≠ none → id ∈ ids) :
    (ids.filterMap l.effectiveRole).Perm (nextRoles l.roles l.stagedRoleChanges).values := by
  let pair (id : String) : Option (String × EffectiveRole) := (l.effectiveRole id).map (id, ·)
  have hpair : ids.filterMap l.effectiveRole = (ids.filterMap pair).map Prod.snd := by
    rw [List.map_filterMap]
    refine List.filterMap_congr fun id _ => ?_
    dsimp only [pair]
    cases l.effectiveRole id <;> rfl
  have hpairs : (ids.filterMap pair).Nodup := by
    refine hnodup.filterMap fun a a' b hb hb' => ?_
    obtain ⟨r, -, rfl⟩ := Option.map_eq_some_iff.mp hb
    obtain ⟨r', -, heq⟩ := Option.map_eq_some_iff.mp hb'
    exact (congrArg Prod.fst heq).symm
  rw [hpair, OrderedMap.values]
  refine List.Perm.map _ ((List.perm_ext_iff_of_nodup hpairs (OrderedMap.nodup _).of_map).mpr fun e => ?_)
  rw [OrderedMap.mem_entries_iff, get_nextRoles, List.mem_filterMap]
  constructor
  · intro ⟨id, _, hid⟩
    obtain ⟨r, hr, rfl⟩ := Option.map_eq_some_iff.mp hid
    exact hr
  · intro he
    have hsome : l.effectiveRole e.1 ≠ none := by rw [he]; exact Option.some_ne_none _
    exact ⟨e.1, hids e.1 hsome, Option.map_eq_some_iff.mpr ⟨e.2, he, rfl⟩⟩

theorem others_of_effectiveRole {l : ClusterLayout} {id : String} (h : l.effectiveRole id ≠ none) :
    id ∈ l.appliedById.keys ∨ id ∈ l.stagedById.keys := by
  rw [OrderedMap.mem_keys_iff, OrderedMap.mem_keys_iff]
  unfold ClusterLayout.effectiveRole at h
  cases hstaged : l.stagedById.get id with
  | some c => exact .inr ⟨c, rfl⟩
  | none =>
    cases happlied : l.appliedById.get id with
    | some r => exact .inl ⟨r, rfl⟩
    | none => simp [hstaged, happlied] at h

theorem drafts_perm_next (status : ClusterStatus) (l : ClusterLayout) :
    ((startEditing status l).filterMap RoleDraft.effective).Perm (nextRoles l.roles l.stagedRoleChanges).values := by
  let known := status.nodes.map ClusterNode.id
  let others := (OrderedSet.ofList (l.appliedById.keys ++ l.stagedById.keys)).items.filter fun id => id ∉ known
  have hids : (startEditing status l).map RoleDraft.id = known ++ others := by
    rw [startEditing, List.map_append, List.map_map, List.map_map]
    exact congrArg₂ (· ++ ·) rfl (List.map_id others)
  rw [List.filterMap_congr fun d hd => effective_of_mem_drafts hd]
  have hrows : (startEditing status l).filterMap (fun d => l.effectiveRole d.id) =
      (known ++ others).filterMap l.effectiveRole := by rw [← hids, List.filterMap_map]; rfl
  rw [hrows]
  refine roles_perm_next l ?_ fun id hid => ?_
  · refine List.nodup_append.mpr ⟨status.distinct, (OrderedSet.nodup _).filter _, fun a ha b hb heq => ?_⟩
    have := (List.mem_filter.mp hb).2
    rw [decide_eq_true_eq] at this
    exact this (heq ▸ ha)
  · rw [List.mem_append, List.mem_filter, decide_eq_true_eq, OrderedSet.mem_ofList, List.mem_append]
    by_cases hknown : id ∈ known
    · exact .inl hknown
    · exact .inr ⟨others_of_effectiveRole hid, hknown⟩

/-- The roles that are staged for nodes without an applied role, which the table has no row for. -/
def additions (l : ClusterLayout) : List EffectiveRole :=
  (l.stagedRoleChanges.filter fun c => (l.appliedById.get c.id).isNone).filterMap NodeRoleChange.assigned

theorem rows_perm_next (l : ClusterLayout) (hostnameOf : String → Option String) :
    ((layoutRoleRows l.roles l.stagedById hostnameOf).filterMap LayoutRoleRow.effective ++ additions l).Perm
      (nextRoles l.roles l.stagedRoleChanges).values := by
  let unassigned := (l.stagedRoleChanges.filter fun c => (l.appliedById.get c.id).isNone).map NodeRoleChange.id
  have hrows : (layoutRoleRows l.roles l.stagedById hostnameOf).filterMap LayoutRoleRow.effective =
      (l.roles.map LayoutNodeRole.id).filterMap l.effectiveRole := by
    rw [List.filterMap_congr fun row hrow => effective_of_mem_rows hrow, layoutRoleRows, List.filterMap_map,
      List.filterMap_map]
    rfl
  have hadditions : additions l = unassigned.filterMap l.effectiveRole := by
    rw [additions, List.filterMap_map]
    refine List.filterMap_congr fun c hc => ?_
    rw [Function.comp_apply, ClusterLayout.effectiveRole,
      ClusterLayout.stagedById_iff.mpr ⟨(List.mem_filter.mp hc).1, rfl⟩]
  rw [hrows, hadditions, ← List.filterMap_append]
  refine roles_perm_next l ?_ fun id hid => ?_
  · refine List.nodup_append.mpr ⟨l.distinctRoles, l.distinctChanges.sublist (List.filter_sublist.map _), ?_⟩
    intro a ha b hb heq
    obtain ⟨r, hr, rfl⟩ := List.mem_map.mp ha
    obtain ⟨c, hc, rfl⟩ := List.mem_map.mp hb
    have hnone := (List.mem_filter.mp hc).2
    rw [← heq, ClusterLayout.appliedById_iff.mpr ⟨hr, rfl⟩] at hnone
    exact absurd hnone (by simp)
  · rw [List.mem_append]
    cases happlied : l.appliedById.get id with
    | some r =>
      obtain ⟨hr, rfl⟩ := ClusterLayout.appliedById_iff.mp happlied
      exact .inl (List.mem_map_of_mem hr)
    | none =>
      have hkeys := others_of_effectiveRole hid
      rw [OrderedMap.mem_keys_iff, OrderedMap.mem_keys_iff, happlied] at hkeys
      obtain ⟨r, hr⟩ | ⟨c, hc⟩ := hkeys
      · exact absurd hr.symm (Option.some_ne_none r)
      · obtain ⟨hmem, rfl⟩ := ClusterLayout.stagedById_iff.mp hc
        exact .inr (List.mem_map_of_mem (List.mem_filter.mpr ⟨hmem, by rw [happlied]; rfl⟩))

/-! ## Totals of the same roles -/

def EffectiveRole.bytes (r : EffectiveRole) : ℕ := r.capacity.getD 0

theorem foldl_addRole (roles : List EffectiveRole) (s : TotalsState) : roles.foldl addRole s =
    { assignedNodes := s.assignedNodes + roles.length
      capacity := roles.foldl (fun sum r => Double.ofNat (sum + r.bytes)) s.capacity
      zones := s.zones.insertAll (roles.map EffectiveRole.zone) } := by
  induction roles generalizing s with
  | nil => rfl
  | cons r roles ih =>
    rw [List.foldl_cons, ih, addRole, List.length_cons, List.foldl_cons, List.map_cons, OrderedSet.insertAll_cons]
    simp only [EffectiveRole.bytes]
    congr 1
    omega

/-- Doubles add multiples of a power of two exactly as long as the sum has 53 digits. -/
theorem foldl_double {e : ℕ} {roles : List EffectiveRole} (hdvd : ∀ r ∈ roles, 2 ^ e ∣ r.bytes) :
    ∀ {sum : ℕ}, 2 ^ e ∣ sum → sum + (roles.map EffectiveRole.bytes).sum ≤ 2 ^ (53 + e) →
      roles.foldl (fun sum r => Double.ofNat (sum + r.bytes)) sum = sum + (roles.map EffectiveRole.bytes).sum := by
  induction roles with
  | nil =>
    intro sum _ _
    rfl
  | cons r roles ih =>
    intro sum hsum hle
    rw [List.map_cons, List.sum_cons, ← Nat.add_assoc] at hle ⊢
    have hnext : 2 ^ e ∣ sum + r.bytes := Nat.dvd_add hsum (hdvd r List.mem_cons_self)
    obtain ⟨j, hj⟩ := hnext
    have hj53 : j ≤ 2 ^ 53 := by
      refine Nat.le_of_mul_le_mul_left ?_ (Nat.two_pow_pos e)
      rw [← hj, ← Nat.pow_add, Nat.add_comm e]
      omega
    have hexact : Double.ofNat (sum + r.bytes) = sum + r.bytes := by
      rw [hj, Nat.mul_comm]
      exact Double.ofNat_mul_pow hj53 e
    rw [List.foldl_cons, hexact]
    exact ih (fun r' hr' => hdvd r' (List.mem_cons_of_mem r hr')) ⟨j, hj⟩ hle

theorem totalsOf_eq (roles : List EffectiveRole) : totalsOf roles =
    { assignedNodes := roles.length
      zones := (OrderedSet.ofList (roles.map EffectiveRole.zone)).items.length
      capacity := roles.foldl (fun sum r => Double.ofNat (sum + r.bytes)) 0 } := by
  rw [totalsOf, foldl_addRole]
  simp only [Nat.zero_add]
  rfl

/-- The totals of the roles that are shown are those of the next layout, for the capacity as far as doubles add
exactly. -/
def Agrees (shown : List EffectiveRole) (l : ClusterLayout) : Prop :=
  let after := (layoutTotals l.roles l.stagedRoleChanges).2
  (totalsOf shown).assignedNodes = after.assignedNodes ∧ (totalsOf shown).zones = after.zones ∧
  ∀ e, (∀ r ∈ shown, 2 ^ e ∣ r.bytes) → (shown.map EffectiveRole.bytes).sum ≤ 2 ^ (53 + e) →
    (totalsOf shown).capacity = after.capacity

theorem agrees_of_perm {shown : List EffectiveRole} {l : ClusterLayout}
    (h : shown.Perm (nextRoles l.roles l.stagedRoleChanges).values) : Agrees shown l := by
  rw [Agrees, layoutTotals]
  dsimp only
  generalize (nextRoles l.roles l.stagedRoleChanges).values = next at h
  rw [totalsOf_eq, totalsOf_eq]
  refine ⟨h.length_eq, ?_, fun e hdvd hle => ?_⟩
  · refine (OrderedSet.perm_of_mem_iff fun zone => ?_).length_eq
    rw [OrderedSet.mem_ofList, OrderedSet.mem_ofList, (h.map EffectiveRole.zone).mem_iff]
  · have hsum : (shown.map EffectiveRole.bytes).sum = (next.map EffectiveRole.bytes).sum :=
      (h.map EffectiveRole.bytes).sum_nat
    dsimp only
    rw [foldl_double hdvd (Nat.dvd_zero _) (by omega), foldl_double (fun r hr => hdvd r (h.mem_iff.mpr hr))
      (Nat.dvd_zero _) (by omega), hsum]

/-- With nothing staged the next layout is the applied one. -/
theorem layoutTotals_nil (l : ClusterLayout) :
    (layoutTotals l.roles []).1 = (layoutTotals l.roles []).2 := by
  have hnodup : ((l.roles.map fun r => (r.id, r.effective)).map Prod.fst).Nodup := by
    rw [List.map_map]
    exact l.distinctRoles
  rw [layoutTotals, nextRoles, List.foldl_nil, OrderedMap.values, OrderedMap.entries_ofList hnodup, List.map_map]
  rfl

/-- Taking back what is staged for a node takes away its entry alone, and with all of them taken back, in any order,
the totals are those of the applied layout. At every point the rows of the form, and those of the table with the
additions that it has no row for, have the totals of the next layout, and show the same role of the same node. -/
theorem reverts_and_totals_agree (l : ClusterLayout) :
    (∀ c ∈ l.stagedRoleChanges, ∃ change,
      revertChangeFor c.id (l.appliedById.get c.id) (l.stagedById.get c.id) = some change ∧
      (l.stage change).roles = l.roles ∧
      (l.stage change).stagedRoleChanges = l.stagedRoleChanges.filter fun c' => c'.id ≠ c.id) ∧
    (∀ ids : List String, (∀ c ∈ l.stagedRoleChanges, c.id ∈ ids) → let done := ids.foldl revertNode l
      done.roles = l.roles ∧ done.stagedRoleChanges = [] ∧
      (layoutTotals done.roles done.stagedRoleChanges).1 = (layoutTotals done.roles done.stagedRoleChanges).2) ∧
    ∀ (reverted : List String) (status : ClusterStatus) (hostnameOf : String → Option String),
      let l' := reverted.foldl revertNode l
      let drafts := startEditing status l'
      let rows := layoutRoleRows l'.roles l'.stagedById hostnameOf
      Agrees (drafts.filterMap RoleDraft.effective) l' ∧
      Agrees (rows.filterMap LayoutRoleRow.effective ++ additions l') l' ∧
      ∀ d ∈ drafts, ∀ row ∈ rows, d.id = row.id → d.effective = row.effective := by
  refine ⟨fun c hc => revertChangeFor_spec hc, fun ids hids => ?_, fun reverted status hostnameOf => ?_⟩
  · obtain ⟨hroles, hstaged⟩ := foldl_revertNode ids l
    have hnil : (l.stagedRoleChanges.filter fun c => c.id ∉ ids) = [] := by
      rw [List.filter_eq_nil_iff]
      intro c hc
      simpa using hids c hc
    rw [hnil] at hstaged
    refine ⟨hroles, hstaged, ?_⟩
    rw [hroles, hstaged]
    exact layoutTotals_nil l
  · refine ⟨agrees_of_perm (drafts_perm_next status _), agrees_of_perm (rows_perm_next _ hostnameOf), ?_⟩
    intro d hd row hrow hid
    rw [effective_of_mem_drafts hd, effective_of_mem_rows hrow, hid]

def storage (id : String) (bytes : ℕ) : LayoutNodeRole :=
  { id := id, zone := [0x7A], tags := [], capacity := some bytes }

/-- Three nodes, of which the status has the one with 2^53 bytes last. -/
def large : ClusterLayout where
  roles := [storage "a" 9007199254740992, storage "b" 1, storage "c" 1]
  stagedRoleChanges := []
  distinctRoles := by decide
  distinctChanges := List.nodup_nil

def largeStatus : ClusterStatus where
  nodes := ["b", "c", "a"].map fun id => { id := id, hostname := none }
  distinct := by decide

/-- A node without a role is to get one. -/
def additionStaged : ClusterLayout where
  roles := []
  stagedRoleChanges := [.assign "a" (storage "a" 1).effective]
  distinctRoles := List.nodup_nil
  distinctChanges := by decide

theorem large_capacity_differs :
    (totalsOf ((startEditing largeStatus large).filterMap RoleDraft.effective)).capacity ≠
        (layoutTotals large.roles large.stagedRoleChanges).2.capacity ∧
      (totalsOf ((layoutRoleRows additionStaged.roles additionStaged.stagedById fun _ => none).filterMap
        LayoutRoleRow.effective)).assignedNodes ≠
          (layoutTotals additionStaged.roles additionStaged.stagedRoleChanges).2.assignedNodes := by
  constructor
  · decide +kernel
  · decide +kernel

end GarageConsole.Layout
