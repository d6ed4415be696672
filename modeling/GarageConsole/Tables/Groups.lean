import Mathlib.Data.List.Perm.Basic
import Mathlib.Data.String.Basic
import GarageConsole.Dashboard.Attention
import GarageConsole.Foundations.Comparators
import GarageConsole.Foundations.Grouping

/-! # Nodes in groups

The list of the nodes is cut into groups by zone, connectivity or role. `bucketize` gathers what has the key of a bucket
and sorts the buckets and what is in them. Every node is in one group, together with exactly the nodes that share its
zone, connectivity or role, and the nodes without a zone come last (`nodes_grouped`).
-/

namespace GarageConsole.Tables

open Foundations Foundations.StableSort
open RepairGuard (nodeDisplayName)

set_option autoImplicit false

structure Bucket where
  key : String
  label : String
  rank : ℤ

structure Group (T : Type) where
  key : String
  label : String
  items : List T

section Bucketize

variable {T : Type} (compareLabels compareIds : Comparator String) (named : T → String × Option String)

/-- By the name that is shown, then by the full ID. `compareLabels` and `compareIds` stand for the comparisons by
locale, with numbers in their natural order and without. -/
def compareNodes : Comparator T :=
  (compareLabels.on fun i => nodeDisplayName (named i).1 (named i).2).thenBy (compareIds.on fun i => (named i).1)

def compareBuckets : Comparator (Bucket × List T) :=
  (Comparator.byNumber.on fun b => b.1.rank).thenBy (compareLabels.on fun b => b.1.label)

/-- The buckets in the order in which they are met, each as its first item gives it. -/
def buckets (items : List T) (bucketOf : T → Bucket) : OrderedMap String (Bucket × List T) :=
  OrderedMap.collect (fun i => (bucketOf i).key) (fun i => (bucketOf i, [])) (fun b i => (b.1, b.2 ++ [i])) items

def bucketize (items : List T) (bucketOf : T → Bucket) : List (Group T) :=
  ((compareBuckets compareLabels).sort (buckets items bucketOf).values).map fun b =>
    ⟨b.1.key, b.1.label, (compareNodes compareLabels compareIds named).sort b.2⟩

end Bucketize

/-! ## The nodes -/

structure NodeRole where
  zone : String
  capacity : Option ℤ

structure ClusterNode where
  id : String
  hostname : Option String
  isUp : Bool
  role : Option NodeRole
  draining : Bool

inductive NodeRoleKind where
  | storage
  | gateway
  | draining
  | unassigned
  deriving DecidableEq

def nodeRoleKind (n : ClusterNode) : NodeRoleKind :=
  match n.role with
  | some r => if r.capacity.isSome then .storage else .gateway
  | none => if n.draining then .draining else .unassigned

inductive NodeGroupBy where
  | zone
  | connectivity
  | role

def noZoneLabel : String := "ゾーン未割り当て"

def zoneBucket : Option String → Bucket
  | some zone => ⟨"zone:" ++ zone, zone, 0⟩
  | none => ⟨"zone-none", noZoneLabel, 1⟩

def roleBucket : NodeRoleKind → Bucket
  | .storage => ⟨"role:storage", "ストレージ", 0⟩
  | .gateway => ⟨"role:gateway", "ゲートウェイ", 1⟩
  | .draining => ⟨"role:draining", "draining", 2⟩
  | .unassigned => ⟨"role:unassigned", "未割り当て", 3⟩

def nodeBucket (groupBy : NodeGroupBy) (n : ClusterNode) : Bucket :=
  match groupBy with
  | .zone => zoneBucket (n.role.map NodeRole.zone)
  | .connectivity => if n.isUp then ⟨"up", "接続中", 0⟩ else ⟨"down", "切断中", 1⟩
  | .role => roleBucket (nodeRoleKind n)

def groupNodes (compareLabels compareIds : Comparator String) (nodes : List ClusterNode) (groupBy : NodeGroupBy) :
    List (Group ClusterNode) :=
  bucketize compareLabels compareIds (fun n => (n.id, n.hostname)) nodes (nodeBucket groupBy)

/-! ## What is gathered -/

section Bucketize

variable {T : Type} {compareLabels compareIds : Comparator String} {named : T → String × Option String}
  {items : List T} {bucketOf : T → Bucket}

theorem collected_bucket (i : T) (rest : List T) : OrderedMap.collected (fun i => (bucketOf i, ([] : List T)))
    (fun b i => (b.1, b.2 ++ [i])) (i :: rest) = some (bucketOf i, i :: rest) := by
  have hfold (b : Bucket × List T) : rest.foldl (fun b i => (b.1, b.2 ++ [i])) b = (b.1, b.2 ++ rest) := by
    induction rest generalizing b with
    | nil => simp
    | cons j rest ih => rw [List.foldl_cons, ih, List.append_assoc, List.singleton_append]
  rw [OrderedMap.collected, hfold]
  rfl

/-- A bucket has the items with its key, in their order. -/
theorem mem_buckets {k : String} {b : Bucket × List T} (h : (k, b) ∈ (buckets items bucketOf).entries) :
    b.1.key = k ∧ b.2 = (items.filter fun i => (bucketOf i).key = k) ∧
      ∃ i rest, b.2 = i :: rest ∧ b.1 = bucketOf i := by
  rw [OrderedMap.mem_entries_iff, buckets, OrderedMap.get_collect] at h
  cases hitems : items.filter fun i => (bucketOf i).key = k with
  | nil =>
    rw [hitems] at h
    cases h
  | cons i rest =>
    rw [hitems, collected_bucket] at h
    obtain rfl := Option.some.inj h
    have hi : i ∈ items.filter fun i => (bucketOf i).key = k := hitems ▸ List.mem_cons_self
    exact ⟨of_decide_eq_true (List.mem_filter.mp hi).2, rfl, i, rest, rfl, rfl⟩

theorem perm_buckets : ((buckets items bucketOf).values.flatMap Prod.snd).Perm items := by
  have hvalues : (buckets items bucketOf).values.flatMap Prod.snd =
      (buckets items bucketOf).keys.flatMap fun k => items.filter fun i => (bucketOf i).key = k := by
    rw [OrderedMap.values, OrderedMap.keys, List.flatMap_map, List.flatMap_map]
    exact List.flatMap_congr fun e he => (mem_buckets he).2.1
  rw [hvalues]
  exact OrderedMap.perm_flatMap_filter _ (buckets items bucketOf).nodup fun i hi =>
    (OrderedMap.mem_keys_collect _ _ _).mpr ⟨i, hi, rfl⟩

theorem keys_buckets : (buckets items bucketOf).values.map (fun b => b.1.key) = (buckets items bucketOf).keys := by
  rw [OrderedMap.values, OrderedMap.keys, List.map_map]
  exact List.map_congr_left fun e he => (mem_buckets he).1

/-! ## What is shown -/

/-- Every item is in one group, with the items of its key; items are in their order, and so are the groups. -/
structure Grouped (compareLabels compareIds : Comparator String) (named : T → String × Option String)
    (bucketOf : T → Bucket) (items : List T) (groups : List (Group T)) : Prop where
  perm : (groups.flatMap Group.items).Perm items
  distinct : (groups.map Group.key).Nodup
  members : ∀ g ∈ groups, g.items ≠ [] ∧ ∀ i ∈ g.items, (bucketOf i).key = g.key
  sorted : ∀ g ∈ groups, g.items.Pairwise fun i j => compareNodes compareLabels compareIds named i j ≤ 0
  ordered : groups.Pairwise fun g h => ∀ i ∈ g.items, ∀ j ∈ h.items, (bucketOf i).rank < (bucketOf j).rank ∨
    (bucketOf i).rank = (bucketOf j).rank ∧ compareLabels (bucketOf i).label (bucketOf j).label ≤ 0

theorem compareBuckets_le {b c : Bucket × List T} (h : compareBuckets compareLabels b c ≤ 0) :
    b.1.rank < c.1.rank ∨ b.1.rank = c.1.rank ∧ compareLabels b.1.label c.1.label ≤ 0 := by
  rw [compareBuckets, Comparator.thenBy_le_iff] at h
  exact h.imp (fun hrank => by simpa [Comparator.on, Comparator.byNumber] using hrank) fun hboth =>
    ⟨by simpa [Comparator.on, Comparator.byNumber, sub_eq_zero] using hboth.1, hboth.2⟩

theorem bucketize_grouped (hlabels : compareLabels.Consistent) (hids : compareIds.Consistent)
    (hbucket : ∀ i j, (bucketOf i).key = (bucketOf j).key → bucketOf i = bucketOf j) :
    Grouped compareLabels compareIds named bucketOf items
      (bucketize compareLabels compareIds named items bucketOf) := by
  have hentry {b : Bucket × List T} (hb : b ∈ (compareBuckets compareLabels).sort (buckets items bucketOf).values) :
      (b.1.key, b) ∈ (buckets items bucketOf).entries := by
    obtain ⟨e, he, rfl⟩ := List.mem_map.mp (Comparator.mem_sort.mp hb)
    rw [(mem_buckets he).1]
    exact he
  have hmem {b : Bucket × List T} (hb : b ∈ (compareBuckets compareLabels).sort (buckets items bucketOf).values) {i : T}
      (hi : i ∈ (compareNodes compareLabels compareIds named).sort b.2) : bucketOf i = b.1 := by
    obtain ⟨-, hitems, j, rest, hj, hbj⟩ := mem_buckets (hentry hb)
    have hkey {i : T} (hi : i ∈ b.2) : (bucketOf i).key = b.1.key := by
      rw [hitems] at hi
      exact of_decide_eq_true (List.mem_filter.mp hi).2
    rw [hbj]
    refine hbucket i j ((hkey (Comparator.mem_sort.mp hi)).trans (hkey ?_).symm)
    rw [hj]
    exact List.mem_cons_self
  have hnodes : (compareNodes compareLabels compareIds named).Consistent := (hlabels.on _).thenBy (hids.on _)
  have hbuckets : (compareBuckets compareLabels : Comparator (Bucket × List T)).Consistent :=
    (Comparator.consistent_byNumber.on _).thenBy (hlabels.on _)
  constructor
  · rw [bucketize, List.flatMap_map]
    have hsorted := List.Perm.flatMap_left ((compareBuckets compareLabels).sort (buckets items bucketOf).values)
      fun b _ => (compareNodes compareLabels compareIds named).sort_perm b.2
    exact hsorted.trans (((Comparator.sort_perm _ _).flatMap_right _).trans perm_buckets)
  · rw [bucketize, List.map_map]
    have hperm := (Comparator.sort_perm (compareBuckets compareLabels) (buckets items bucketOf).values).map
      fun b => b.1.key
    rw [keys_buckets] at hperm
    exact hperm.nodup_iff.mpr (buckets items bucketOf).nodup
  · intro g hg
    obtain ⟨b, hb, rfl⟩ := List.mem_map.mp hg
    obtain ⟨-, -, i, rest, hi, -⟩ := mem_buckets (hentry hb)
    refine ⟨List.ne_nil_of_mem (a := i) (Comparator.mem_sort.mpr ?_), fun j hj => by rw [hmem hb hj]⟩
    rw [hi]
    exact List.mem_cons_self
  · intro g hg
    obtain ⟨b, -, rfl⟩ := List.mem_map.mp hg
    exact hnodes.pairwise_sort b.2
  · rw [bucketize, List.pairwise_map]
    refine (hbuckets.pairwise_sort _).imp_of_mem fun {b c} hb hc hbc i hi j hj => ?_
    rw [hmem hb hi, hmem hc hj]
    exact compareBuckets_le hbc

namespace Grouped

variable {groups : List (Group T)}

/-- Two items are in one group exactly when they have the same key. -/
theorem eq_iff (h : Grouped compareLabels compareIds named bucketOf items groups) {g g' : Group T} (hg : g ∈ groups)
    (hg' : g' ∈ groups) {i j : T} (hi : i ∈ g.items) (hj : j ∈ g'.items) :
    g = g' ↔ (bucketOf i).key = (bucketOf j).key := by
  rw [(h.members g hg).2 i hi, (h.members g' hg').2 j hj]
  exact ⟨congrArg Group.key, fun hkey => List.inj_on_of_nodup_map h.distinct hg hg' hkey⟩

end Grouped

end Bucketize

/-! ## The groups of the nodes -/

/-- What the nodes of a group share. -/
inductive Shared where
  | zone (zone : Option String)
  | isUp (isUp : Bool)
  | kind (kind : NodeRoleKind)

def shared (groupBy : NodeGroupBy) (n : ClusterNode) : Shared :=
  match groupBy with
  | .zone => .zone (n.role.map NodeRole.zone)
  | .connectivity => .isUp n.isUp
  | .role => .kind (nodeRoleKind n)

/-- Zones are in the order of their names and nodes without one come after them; connected nodes come before the others;
storage nodes come before gateways, these before draining nodes, these before the others. -/
def Before (compareLabels : Comparator String) : Shared → Shared → Prop
  | .zone (some a), .zone (some b) => compareLabels a b ≤ 0
  | .zone (some _), .zone none => True
  | .isUp a, .isUp b => a = true ∧ b = false
  | .kind a, .kind b => (roleBucket a).rank < (roleBucket b).rank
  | _, _ => False

theorem zoneBucket_injective {a b : Option String} (h : (zoneBucket a).key = (zoneBucket b).key) : a = b := by
  have hdistinct (zone : String) : "zone:" ++ zone ≠ "zone-none" := fun heq => by
    have hlist := congrArg String.toList heq
    simp at hlist
  match a, b, h with
  | none, none, _ => rfl
  | some a, some b, h => exact congrArg some (String.append_right_inj "zone:" |>.mp h)
  | some a, none, h => exact absurd h (hdistinct a)
  | none, some b, h => exact absurd h.symm (hdistinct b)

theorem roleBucket_injective {a b : NodeRoleKind} (h : (roleBucket a).key = (roleBucket b).key) : a = b := by
  cases a <;> cases b <;> first | rfl | exact absurd h (by decide)

/-- The key of a node's bucket tells what the nodes of the group share. -/
theorem nodeBucket_key_iff {groupBy : NodeGroupBy} {n m : ClusterNode} :
    (nodeBucket groupBy n).key = (nodeBucket groupBy m).key ↔ shared groupBy n = shared groupBy m := by
  cases groupBy with
  | zone =>
    simp only [nodeBucket, shared, Shared.zone.injEq]
    exact ⟨zoneBucket_injective, fun h => by rw [h]⟩
  | connectivity =>
    simp only [nodeBucket, shared, Shared.isUp.injEq]
    cases n.isUp <;> cases m.isUp <;> simp
  | role =>
    simp only [nodeBucket, shared, Shared.kind.injEq]
    exact ⟨roleBucket_injective, fun h => by rw [h]⟩

theorem nodeBucket_congr {groupBy : NodeGroupBy} {n m : ClusterNode} (h : shared groupBy n = shared groupBy m) :
    nodeBucket groupBy n = nodeBucket groupBy m := by
  cases groupBy with
  | zone => rw [nodeBucket, nodeBucket, Shared.zone.inj h]
  | connectivity => rw [nodeBucket, nodeBucket, Shared.isUp.inj h]
  | role => rw [nodeBucket, nodeBucket, Shared.kind.inj h]

/-- What the order of the buckets says, if the nodes do not share theirs. -/
theorem before_of_bucket {compareLabels : Comparator String} {groupBy : NodeGroupBy} {n m : ClusterNode}
    (hne : shared groupBy n ≠ shared groupBy m)
    (h : (nodeBucket groupBy n).rank < (nodeBucket groupBy m).rank ∨
      (nodeBucket groupBy n).rank = (nodeBucket groupBy m).rank ∧
        compareLabels (nodeBucket groupBy n).label (nodeBucket groupBy m).label ≤ 0) :
    Before compareLabels (shared groupBy n) (shared groupBy m) := by
  cases groupBy with
  | zone =>
    simp only [nodeBucket, shared] at h hne ⊢
    cases hn : n.role.map NodeRole.zone with
    | none =>
      cases hm : m.role.map NodeRole.zone with
      | none => exact absurd (by rw [hn, hm]) hne
      | some b => simp [hn, hm, zoneBucket] at h
    | some a =>
      cases hm : m.role.map NodeRole.zone with
      | none => trivial
      | some b => simpa [hn, hm, zoneBucket, Before] using h
  | connectivity =>
    simp only [nodeBucket, shared] at h hne ⊢
    cases hn : n.isUp <;> cases hm : m.isUp <;> simp_all [Before]
  | role =>
    simp only [nodeBucket, shared] at h hne ⊢
    refine h.resolve_right fun hrank => hne ?_
    have hkind (a b : NodeRoleKind) (heq : (roleBucket a).rank = (roleBucket b).rank) : a = b := by
      cases a <;> cases b <;> first | rfl | exact absurd heq (by decide)
    rw [hkind _ _ hrank.1]

/-- The nodes of the list are in groups, each in one. A group has the nodes that share the zone, connectivity or role,
by name and ID, and the groups are in their order. -/
theorem nodes_grouped {compareLabels compareIds : Comparator String} (hlabels : compareLabels.Consistent)
    (hids : compareIds.Consistent) (nodes : List ClusterNode) (groupBy : NodeGroupBy) :
    let groups := groupNodes compareLabels compareIds nodes groupBy
    (groups.flatMap Group.items).Perm nodes ∧
      (∀ g ∈ groups, g.items ≠ [] ∧ g.items.Pairwise fun n m =>
        compareNodes compareLabels compareIds (fun n => (n.id, n.hostname)) n m ≤ 0) ∧
      (∀ g ∈ groups, ∀ h ∈ groups, ∀ n ∈ g.items, ∀ m ∈ h.items, g = h ↔ shared groupBy n = shared groupBy m) ∧
      groups.Pairwise fun g h => ∀ n ∈ g.items, ∀ m ∈ h.items,
        Before compareLabels (shared groupBy n) (shared groupBy m) := by
  intro groups
  have h : Grouped compareLabels compareIds (fun n : ClusterNode => (n.id, n.hostname)) (nodeBucket groupBy) nodes
      groups := bucketize_grouped hlabels hids fun n m hkey => nodeBucket_congr (nodeBucket_key_iff.mp hkey)
  refine ⟨h.perm, fun g hg => ⟨(h.members g hg).1, h.sorted g hg⟩, fun g hg g' hg' n hn m hm => ?_, ?_⟩
  · rw [h.eq_iff hg hg' hn hm, nodeBucket_key_iff]
  · have hdistinct : groups.Pairwise fun g h => g.key ≠ h.key := List.pairwise_map.mp h.distinct
    refine (h.ordered.and hdistinct).imp_of_mem fun {g g'} hg hg' hgg' n hn m hm => ?_
    refine before_of_bucket (fun hshared => hgg'.2 ?_) (hgg'.1 n hn m hm)
    rw [← (h.members g hg).2 n hn, ← (h.members g' hg').2 m hm, nodeBucket_key_iff.mpr hshared]

theorem nodes_grouped_two :
    let groups := groupNodes Comparator.byOrder Comparator.byOrder
      [⟨"1f", none, true, none, false⟩, ⟨"2e", some "garage", true, some ⟨"dc1", some 1⟩, false⟩] .zone
    (groups.flatMap Group.items).Perm
        [⟨"1f", none, true, none, false⟩, ⟨"2e", some "garage", true, some ⟨"dc1", some 1⟩, false⟩] ∧
      (∀ g ∈ groups, g.items ≠ [] ∧ g.items.Pairwise fun n m =>
        compareNodes Comparator.byOrder Comparator.byOrder (fun n => (n.id, n.hostname)) n m ≤ 0) ∧
      (∀ g ∈ groups, ∀ h ∈ groups, ∀ n ∈ g.items, ∀ m ∈ h.items, g = h ↔ shared .zone n = shared .zone m) ∧
      groups.Pairwise fun g h => ∀ n ∈ g.items, ∀ m ∈ h.items,
        Before Comparator.byOrder (shared .zone n) (shared .zone m) :=
  nodes_grouped Comparator.consistent_byOrder Comparator.consistent_byOrder _ _

end GarageConsole.Tables
