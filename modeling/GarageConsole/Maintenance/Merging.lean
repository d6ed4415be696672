import GarageConsole.Foundations.Keyed
import GarageConsole.Maintenance.Status

/-! # The loops that merge the storage health

`buildStorageHealth` fills its maps in loops over the maps of the three answers, which Go walks through in any
order. `mergeInOrder` is the source with its loops, the order of each given; a node's entry comes out as
`nodeHealth`, whatever the orders are (`mergeInOrder_get`).
-/

namespace GarageConsole.Maintenance

open Foundations Foundations.Text Foundations.GoJson Foundations.Keyed GarageConsole.Garage GarageConsole.RepairGuard

set_option autoImplicit false

/-- The loops over maps, in the order of the source. -/
inductive MapLoop where
  | statsSuccess
  | statsError
  | blockNodeErrors
  | varsSuccess
  | varsError
  | workersSuccess
  | workersError
  | nodes
  deriving DecidableEq

/-- The order that each of the loops takes. -/
abbrev Orders := MapLoop → {α : Type} → (m : GoMap α) → Iteration m

/-! ## The statistics -/

def aggregateRound (out : MaintenanceMetrics) (entry : String × Option BlockManagerStats) : MaintenanceMetrics :=
  match entry.2 with
  | none =>
    { out with nodeErrors := out.nodeErrors.set entry.1 "blockManagerStats not reported (Garage < v2.3.0?)" }
  | some s =>
    { out with
      resyncQueueLength := (out.resyncQueueLength + s.resyncQueueLen).bmod 18446744073709551616
      resyncErrored := (out.resyncErrored + s.resyncErrors).bmod 18446744073709551616
      nodes := out.nodes ++ [⟨entry.1, s.resyncQueueLen, s.resyncErrors⟩] }

def nodeErrorRound (out : MaintenanceMetrics) (entry : String × String) : MaintenanceMetrics :=
  { out with nodeErrors := out.nodeErrors.set entry.1 entry.2 }

def aggregateInOrder (orders : Orders) (multi : NodeStatisticsMulti) : MaintenanceMetrics :=
  let out := (orders .statsSuccess multi.success).entries.foldl aggregateRound ⟨0, 0, [], .empty⟩
  let out := (orders .statsError multi.error).entries.foldl nodeErrorRound out
  { out with nodes := out.nodes.insertionSort fun a b => a.nodeID ≤ b.nodeID }

/-! ## The merge -/

/-- The maps of the source while the answers are merged. The problems of a node are kept once; the source keeps
them with their heading, and once more by question without it. -/
structure Merge where
  nodes : GoMap NodeStorageHealth := .empty
  errs : GoMap (List Problem) := .empty
  statsSeen : GoMap Bool := .empty
  varsSeen : GoMap Bool := .empty

namespace Merge

/-- `f` changes the node's entry, a new one if there is none. -/
def node (out : Merge) (id : String) (f : NodeStorageHealth → NodeStorageHealth) : Merge :=
  { out with nodes := out.nodes.set id (f ((out.nodes.get id).getD {})) }

def addErr (out : Merge) (id : String) (p : Problem) : Merge :=
  { out with errs := out.errs.set id ((out.errs.get id).getD [] ++ [p]) }

def addErrs (out : Merge) (id : String) (ps : List Problem) : Merge := ps.foldl (fun out p => out.addErr id p) out

def seeStats (out : Merge) (id : String) : Merge := { out with statsSeen := out.statsSeen.set id true }

def seeVars (out : Merge) (id : String) : Merge := { out with varsSeen := out.varsSeen.set id true }

def statsRound (out : Merge) (entry : String × NodeBlockStats) : Merge :=
  (out.seeStats entry.1).node entry.1
    ({ · with resyncQueueLen := some entry.2.resyncQueueLen, resyncErrors := some entry.2.resyncErrors })

def statsErrorRound (out : Merge) (entry : String × String) : Merge :=
  ((out.seeStats entry.1).node entry.1 id).addErr entry.1 ⟨.stats, "ノード統計: ", entry.2⟩

def varsRound (out : Merge) (entry : String × Json) : Merge :=
  let v := readScrubVariables entry.2
  ((out.seeVars entry.1).node entry.1 fun n =>
    { n with
      scrubCorruptions := v.corruptions.or n.scrubCorruptions
      scrubLastCompleted := v.lastCompleted.or n.scrubLastCompleted }).addErrs entry.1
    (v.problem.toList.map (⟨.vars, "", ·⟩))

def varsErrorRound (out : Merge) (entry : String × String) : Merge :=
  ((out.seeVars entry.1).node entry.1 id).addErr entry.1 ⟨.vars, "worker 変数: ", entry.2⟩

def workersRound (out : Merge) (entry : String × Option (List Json)) : Merge :=
  out.node entry.1 fun n => { n with scrub := (findScrubWorker (entry.2.getD [])).or n.scrub }

def workersErrorRound (out : Merge) (entry : String × String) : Merge :=
  (out.node entry.1 id).addErr entry.1 ⟨.workers, "worker 一覧: ", entry.2⟩

/-- What a node did not answer that another question found. -/
def missed (statsAsked varsAsked statsSeen varsSeen : Bool) : List Problem :=
  (if statsAsked && !statsSeen then [⟨.stats, "ノード統計: ", nodeNotAnsweredMsg⟩] else []) ++
    if varsAsked && !varsSeen then [⟨.vars, "worker 変数: ", nodeNotAnsweredMsg⟩] else []

/-- The entry with the texts of its problems. -/
def explained (problems : List Problem) (n : NodeStorageHealth) : NodeStorageHealth :=
  { n with
    error := joined (problems.map fun p => p.heading ++ p.msg)
    statsError := joined (messagesOf .stats problems)
    varsError := joined (messagesOf .vars problems)
    workersError := joined (messagesOf .workers problems) }

def finishRound (statsAsked varsAsked : Bool) (out : Merge) (entry : String × NodeStorageHealth) : Merge :=
  let out := out.addErrs entry.1 (missed statsAsked varsAsked ((out.statsSeen.get entry.1).getD false)
    ((out.varsSeen.get entry.1).getD false))
  out.node entry.1 (explained ((out.errs.get entry.1).getD []))

end Merge

section InOrder

variable (orders : Orders) (stats : Except GarageError NodeStatisticsMulti)
  (vars : Except GarageError GarageMultiResponse) (workers : Except GarageError ListWorkersMulti)

def mergeStats (out : Merge) : Merge :=
  match stats with
  | .error _ => out
  | .ok multi =>
    let block := aggregateInOrder orders multi
    let out := (block.nodes.map fun b => (b.nodeID, b)).foldl Merge.statsRound out
    (orders .blockNodeErrors block.nodeErrors).entries.foldl Merge.statsErrorRound out

def mergeVars (out : Merge) : Merge :=
  match vars with
  | .error _ => out
  | .ok multi =>
    let out := (orders .varsSuccess multi.success).entries.foldl Merge.varsRound out
    (orders .varsError multi.error).entries.foldl Merge.varsErrorRound out

def mergeWorkers (out : Merge) : Merge :=
  match workers with
  | .error _ => out
  | .ok multi =>
    let out := (orders .workersSuccess multi.success).entries.foldl Merge.workersRound out
    (orders .workersError multi.error).entries.foldl Merge.workersErrorRound out

/-- `buildStorageHealth` with its loops. -/
def mergeInOrder : StorageHealthResponse :=
  let out := mergeWorkers orders workers (mergeVars orders vars (mergeStats orders stats {}))
  { nodes := ((orders .nodes out.nodes).entries.foldl (Merge.finishRound stats.toBool vars.toBool) out).nodes
    statsError := failure stats statsUnavailableMsg
    varsError := failure vars varsUnavailableMsg
    workersError := failure workers workersUnavailableMsg }

end InOrder

/-! ## The statistics in any order -/

section Aggregate

variable {orders : Orders} {multi : NodeStatisticsMulti}

theorem foldl_aggregateRound_nodes (l : List (String × Option BlockManagerStats)) (out : MaintenanceMetrics) :
    (l.foldl aggregateRound out).nodes = out.nodes ++ l.filterMap blockStatsOf := by
  induction l generalizing out with
  | nil => simp
  | cons entry l ih =>
    obtain ⟨id, reported⟩ := entry
    rw [List.foldl_cons, ih]
    cases reported with
    | none => rfl
    | some s =>
      have hcons : ((id, some s) :: l).filterMap blockStatsOf = s.of id :: l.filterMap blockStatsOf := rfl
      rw [hcons, List.append_cons]
      rfl

theorem foldl_nodeErrorRound_nodes (l : List (String × String)) (out : MaintenanceMetrics) :
    (l.foldl nodeErrorRound out).nodes = out.nodes := by
  induction l generalizing out with
  | nil => rfl
  | cons entry l ih => exact ih _

theorem aggregateInOrder_nodes : (aggregateInOrder orders multi).nodes =
    ((orders .statsSuccess multi.success).entries.filterMap blockStatsOf).insertionSort
      fun a b => a.nodeID ≤ b.nodeID := by
  rw [aggregateInOrder]
  dsimp only
  rw [foldl_nodeErrorRound_nodes, foldl_aggregateRound_nodes, List.nil_append]

theorem mem_aggregateInOrder_nodes {b : NodeBlockStats} :
    b ∈ (aggregateInOrder orders multi).nodes ↔ b ∈ (aggregateNodeStatistics multi).nodes := by
  rw [aggregateInOrder_nodes, aggregateNodeStatistics]
  dsimp only
  rw [List.mem_insertionSort, List.mem_insertionSort, List.mem_filterMap, List.mem_filterMap]
  simp only [(orders .statsSuccess multi.success).perm.mem_iff]

theorem nodup_aggregateInOrder_nodes :
    (((aggregateInOrder orders multi).nodes.map fun b => (b.nodeID, b)).map Prod.fst).Nodup := by
  rw [List.map_map, aggregateInOrder_nodes]
  have hsublist : ∀ l : List (String × Option BlockManagerStats),
      ((l.filterMap blockStatsOf).map NodeBlockStats.nodeID).Sublist (l.map Prod.fst) := by
    intro l
    induction l with
    | nil => exact List.Sublist.slnil
    | cons entry l ih =>
      obtain ⟨id, reported⟩ := entry
      cases reported with
      | none => exact ih.cons id
      | some s => exact ih.cons_cons id
  exact ((List.perm_insertionSort _ _).map _).nodup_iff.mpr
    ((orders .statsSuccess multi.success).nodup.sublist (hsublist _))

theorem lookup_aggregateInOrder_nodes (id : String) :
    ((aggregateInOrder orders multi).nodes.map fun b => (b.nodeID, b)).lookup id = blockStats (.ok multi) id := by
  refine Option.ext fun b => ?_
  rw [lookup_eq_some_iff nodup_aggregateInOrder_nodes, blockStats_ok, List.mem_map, Option.map_eq_some_iff]
  constructor
  · rintro ⟨b', hmem, heq⟩
    obtain ⟨rfl, rfl⟩ := Prod.mk.inj heq
    obtain ⟨s, hs, hb⟩ := mem_nodes_iff.mp (mem_aggregateInOrder_nodes.mp hmem)
    exact ⟨s, hs, hb.symm⟩
  · rintro ⟨s, hs, rfl⟩
    exact ⟨s.of id, mem_aggregateInOrder_nodes.mpr (mem_nodes_iff.mpr ⟨s, hs, rfl⟩), rfl⟩

theorem keyWise_aggregateRound : KeyWise (fun out : MaintenanceMetrics => out.nodeErrors.get) aggregateRound
    fun _ reported old =>
      if reported.isNone then some "blockManagerStats not reported (Garage < v2.3.0?)" else old := by
  rintro out ⟨id, reported⟩ key
  cases reported with
  | none => exact GoMap.get_set _ _ _ _
  | some s =>
    simp [aggregateRound]

theorem keyWise_nodeErrorRound : KeyWise (fun out : MaintenanceMetrics => out.nodeErrors.get) nodeErrorRound
    fun _ msg _ => some msg := by
  rintro out ⟨id, msg⟩ key
  exact GoMap.get_set _ _ _ _

theorem aggregateInOrder_nodeErrors (id : String) :
    (aggregateInOrder orders multi).nodeErrors.get id = (aggregateNodeStatistics multi).nodeErrors.get id := by
  have hloops := foldl_iteration keyWise_nodeErrorRound (orders .statsError multi.error)
    ((orders .statsSuccess multi.success).entries.foldl aggregateRound ⟨0, 0, [], .empty⟩) id
  rw [foldl_iteration keyWise_aggregateRound] at hloops
  refine hloops.trans (Option.ext fun msg => ?_)
  rw [aggregateNodeStatistics]
  dsimp only
  rw [GoMap.get_merge, GoMap.get_mapValues, Option.map_eq_some_iff, GoMap.mem_keys_iff]
  simp only [GoMap.get_filter]
  cases multi.error.get id with
  | some failed => simp
  | none =>
    cases multi.success.get id with
    | none => simp [GoMap.get, GoMap.empty]
    | some reported => cases reported <;> simp [GoMap.get, GoMap.empty]

end Aggregate

/-! ## What is kept of one node -/

/-- What the maps hold of a node. -/
structure Kept where
  present : Bool := false
  entry : NodeStorageHealth := {}
  problems : List Problem := []
  statsSeen : Bool := false
  varsSeen : Bool := false

namespace Kept

def node (k : Kept) (f : NodeStorageHealth → NodeStorageHealth) : Kept := { k with present := true, entry := f k.entry }

def addErrs (k : Kept) (ps : List Problem) : Kept := { k with problems := k.problems ++ ps }

def seeStats (k : Kept) : Kept := { k with statsSeen := true }

def seeVars (k : Kept) : Kept := { k with varsSeen := true }

end Kept

namespace Merge

def kept (out : Merge) (id : String) : Kept where
  present := (out.nodes.get id).isSome
  entry := (out.nodes.get id).getD {}
  problems := (out.errs.get id).getD []
  statsSeen := (out.statsSeen.get id).getD false
  varsSeen := (out.varsSeen.get id).getD false

theorem get_nodes (out : Merge) (id : String) :
    out.nodes.get id = if (out.kept id).present then some (out.kept id).entry else none := by
  rw [kept]
  cases out.nodes.get id <;> rfl

theorem kept_node (out : Merge) (id key : String) (f : NodeStorageHealth → NodeStorageHealth) :
    (out.node id f).kept key = if key = id then (out.kept key).node f else out.kept key := by
  rw [node, kept, GoMap.get_set]
  split_ifs with h
  · subst h
    rfl
  · rfl

theorem kept_addErr (out : Merge) (id key : String) (p : Problem) :
    (out.addErr id p).kept key = if key = id then (out.kept key).addErrs [p] else out.kept key := by
  rw [addErr, kept, GoMap.get_set]
  split_ifs with h
  · subst h
    rfl
  · rfl

theorem kept_addErrs (out : Merge) (id key : String) (ps : List Problem) :
    (out.addErrs id ps).kept key = if key = id then (out.kept key).addErrs ps else out.kept key := by
  rw [addErrs]
  induction ps generalizing out with
  | nil => simp [Kept.addErrs]
  | cons p ps ih =>
    rw [List.foldl_cons, ih, kept_addErr]
    split_ifs <;> simp [Kept.addErrs]

theorem kept_seeStats (out : Merge) (id key : String) :
    (out.seeStats id).kept key = if key = id then (out.kept key).seeStats else out.kept key := by
  rw [seeStats, kept, GoMap.get_set]
  split_ifs <;> rfl

theorem kept_seeVars (out : Merge) (id key : String) :
    (out.seeVars id).kept key = if key = id then (out.kept key).seeVars else out.kept key := by
  rw [seeVars, kept, GoMap.get_set]
  split_ifs <;> rfl

/-! ## The rounds -/

theorem keyWise_statsRound : KeyWise kept statsRound fun _ b k =>
    k.seeStats.node ({ · with resyncQueueLen := some b.resyncQueueLen, resyncErrors := some b.resyncErrors }) := by
  intro out entry key
  rw [statsRound, kept_node, kept_seeStats]
  split_ifs <;> rfl

theorem keyWise_statsErrorRound : KeyWise kept statsErrorRound fun _ msg k =>
    (k.seeStats.node id).addErrs [⟨.stats, "ノード統計: ", msg⟩] := by
  intro out entry key
  rw [statsErrorRound, kept_addErr, kept_node, kept_seeStats]
  split_ifs <;> rfl

theorem keyWise_varsRound : KeyWise kept varsRound fun _ raw k =>
    (k.seeVars.node fun n =>
      { n with
        scrubCorruptions := (readScrubVariables raw).corruptions.or n.scrubCorruptions
        scrubLastCompleted := (readScrubVariables raw).lastCompleted.or n.scrubLastCompleted }).addErrs
      ((readScrubVariables raw).problem.toList.map (⟨.vars, "", ·⟩)) := by
  intro out entry key
  rw [varsRound, kept_addErrs, kept_node, kept_seeVars]
  split_ifs <;> rfl

theorem keyWise_varsErrorRound : KeyWise kept varsErrorRound fun _ msg k =>
    (k.seeVars.node id).addErrs [⟨.vars, "worker 変数: ", msg⟩] := by
  intro out entry key
  rw [varsErrorRound, kept_addErr, kept_node, kept_seeVars]
  split_ifs <;> rfl

theorem keyWise_workersRound : KeyWise kept workersRound fun _ list k =>
    k.node fun n => { n with scrub := (findScrubWorker (list.getD [])).or n.scrub } := by
  intro out entry key
  rw [workersRound, kept_node]

theorem keyWise_workersErrorRound : KeyWise kept workersErrorRound fun _ msg k =>
    (k.node id).addErrs [⟨.workers, "worker 一覧: ", msg⟩] := by
  intro out entry key
  rw [workersErrorRound, kept_addErr, kept_node]
  split_ifs <;> rfl

theorem keyWise_finishRound (statsAsked varsAsked : Bool) : KeyWise kept (finishRound statsAsked varsAsked)
    fun _ _ k => (k.addErrs (missed statsAsked varsAsked k.statsSeen k.varsSeen)).node
      (explained (k.problems ++ missed statsAsked varsAsked k.statsSeen k.varsSeen)) := by
  intro out entry key
  rw [finishRound, kept_node, kept_addErrs]
  by_cases h : key = entry.1
  · subst h
    have hproblems := congrArg Kept.problems (kept_addErrs out entry.1 entry.1 (missed statsAsked varsAsked
      (out.kept entry.1).statsSeen (out.kept entry.1).varsSeen))
    rw [if_pos rfl] at hproblems
    rw [if_pos rfl, if_pos rfl, if_pos rfl]
    exact congrArg (Kept.node _) (congrArg explained hproblems)
  · rw [if_neg h, if_neg h, if_neg h]

end Merge

/-! ## The answers one after the other -/

section Stages

variable {orders : Orders} {stats : Except GarageError NodeStatisticsMulti}
  {vars : Except GarageError GarageMultiResponse} {workers : Except GarageError ListWorkersMulti}

theorem mem_keys_iff_isSome {α : Type} (m : GoMap α) (id : String) : id ∈ m.keys ↔ (m.get id).isSome = true := by
  rw [GoMap.mem_keys_iff, Option.isSome_iff_exists]

theorem mem_statsSeen_eq {multi : NodeStatisticsMulti} {id : String} : decide (id ∈ statsSeen (.ok multi)) =
    ((blockStats (.ok multi) id).isSome || ((aggregateNodeStatistics multi).nodeErrors.get id).isSome) := by
  rw [Bool.eq_iff_iff, decide_eq_true_iff, statsSeen, List.mem_append, mem_map_nodeID, mem_keys_iff_isSome,
    blockStats_ok, Option.isSome_map, Bool.or_eq_true]

theorem mem_varsSeen_eq {multi : GarageMultiResponse} {id : String} : decide (id ∈ varsSeen (.ok multi)) =
    ((multi.success.get id).isSome || (multi.error.get id).isSome) := by
  rw [Bool.eq_iff_iff, decide_eq_true_iff, varsSeen, List.mem_append, mem_keys_iff_isSome, mem_keys_iff_isSome,
    Bool.or_eq_true]

theorem mem_workersSeen_eq {multi : ListWorkersMulti} {id : String} : decide (id ∈ workersSeen (.ok multi)) =
    ((multi.success.get id).isSome || (multi.error.get id).isSome) := by
  rw [Bool.eq_iff_iff, decide_eq_true_iff, workersSeen, List.mem_append, mem_keys_iff_isSome, mem_keys_iff_isSome,
    Bool.or_eq_true]

theorem mergeStats_kept (out : Merge) (id : String) : (mergeStats orders stats out).kept id =
    { present := (out.kept id).present || decide (id ∈ statsSeen stats)
      entry := { (out.kept id).entry with
        resyncQueueLen := ((blockStats stats id).map NodeBlockStats.resyncQueueLen).or
          (out.kept id).entry.resyncQueueLen
        resyncErrors := ((blockStats stats id).map NodeBlockStats.resyncErrors).or (out.kept id).entry.resyncErrors }
      problems := (out.kept id).problems ++ (errorOf (stats.map fun m => (aggregateNodeStatistics m).nodeErrors) id).map
        (⟨.stats, "ノード統計: ", ·⟩)
      statsSeen := (out.kept id).statsSeen || decide (id ∈ statsSeen stats)
      varsSeen := (out.kept id).varsSeen } := by
  cases stats with
  | error e => simp [mergeStats, statsSeen, blockStats, errorOf, Except.map]
  | ok multi =>
    rw [mergeStats, mem_statsSeen_eq]
    dsimp only
    rw [foldl_iteration Merge.keyWise_statsErrorRound, foldl_keyWise Merge.keyWise_statsRound
      nodup_aggregateInOrder_nodes, lookup_aggregateInOrder_nodes, aggregateInOrder_nodeErrors, Except.map, errorOf]
    cases blockStats (.ok multi) id <;> cases (aggregateNodeStatistics multi).nodeErrors.get id <;>
      simp [Kept.node, Kept.addErrs, Kept.seeStats]

theorem mergeVars_kept (out : Merge) (id : String) : (mergeVars orders vars out).kept id =
    { present := (out.kept id).present || decide (id ∈ varsSeen vars)
      entry := { (out.kept id).entry with
        scrubCorruptions := ((scrubVariables vars id).bind ScrubVariables.corruptions).or
          (out.kept id).entry.scrubCorruptions
        scrubLastCompleted := ((scrubVariables vars id).bind ScrubVariables.lastCompleted).or
          (out.kept id).entry.scrubLastCompleted }
      problems := (out.kept id).problems ++
        (((scrubVariables vars id).bind ScrubVariables.problem).toList.map (⟨.vars, "", ·⟩) ++
          (errorOf (vars.map GarageMultiResponse.error) id).map (⟨.vars, "worker 変数: ", ·⟩))
      statsSeen := (out.kept id).statsSeen
      varsSeen := (out.kept id).varsSeen || decide (id ∈ varsSeen vars) } := by
  cases vars with
  | error e => simp [mergeVars, varsSeen, scrubVariables, errorOf, Except.map]
  | ok multi =>
    rw [mergeVars, mem_varsSeen_eq]
    dsimp only
    rw [foldl_iteration Merge.keyWise_varsErrorRound, foldl_iteration Merge.keyWise_varsRound, Except.map, errorOf,
      scrubVariables]
    cases multi.success.get id <;> cases multi.error.get id <;> simp [Kept.node, Kept.addErrs, Kept.seeVars]

theorem mergeWorkers_kept (out : Merge) (id : String) : (mergeWorkers orders workers out).kept id =
    { present := (out.kept id).present || decide (id ∈ workersSeen workers)
      entry := { (out.kept id).entry with scrub := (scrubWorker workers id).or (out.kept id).entry.scrub }
      problems := (out.kept id).problems ++
        (errorOf (workers.map ListWorkersMulti.error) id).map (⟨.workers, "worker 一覧: ", ·⟩)
      statsSeen := (out.kept id).statsSeen
      varsSeen := (out.kept id).varsSeen } := by
  cases workers with
  | error e => simp [mergeWorkers, workersSeen, scrubWorker, errorOf, Except.map]
  | ok multi =>
    rw [mergeWorkers, mem_workersSeen_eq]
    dsimp only
    rw [foldl_iteration Merge.keyWise_workersErrorRound, foldl_iteration Merge.keyWise_workersRound, Except.map,
      errorOf, scrubWorker]
    cases multi.success.get id <;> cases multi.error.get id <;> simp [Kept.node, Kept.addErrs]

theorem missed_eq (id : String) :
    Merge.missed stats.toBool vars.toBool (decide (id ∈ statsSeen stats)) (decide (id ∈ varsSeen vars)) =
      (notAnswered stats (statsSeen stats) id).map (⟨.stats, "ノード統計: ", ·⟩) ++
        (notAnswered vars (varsSeen vars) id).map (⟨.vars, "worker 変数: ", ·⟩) := by
  rw [Merge.missed]
  congr 1
  · cases stats with
    | error e => rfl
    | ok multi => by_cases h : id ∈ statsSeen (.ok multi) <;> simp [notAnswered, h, Except.toBool]
  · cases vars with
    | error e => rfl
    | ok multi => by_cases h : id ∈ varsSeen (.ok multi) <;> simp [notAnswered, h, Except.toBool]

/-- **The order of the loops does not matter.** A node that any of the questions found has the entry `nodeHealth`,
and no other node has one. -/
theorem mergeInOrder_get (id : String) : (mergeInOrder orders stats vars workers).nodes.get id =
    if id ∈ statsSeen stats ++ varsSeen vars ++ workersSeen workers then some (nodeHealth stats vars workers id)
    else none := by
  have hmerged : (mergeWorkers orders workers (mergeVars orders vars (mergeStats orders stats {}))).kept id =
      { present := decide (id ∈ statsSeen stats) || decide (id ∈ varsSeen vars) || decide (id ∈ workersSeen workers)
        entry := { nodeHealth stats vars workers id with
          error := "", statsError := "", varsError := "", workersError := "" }
        problems := (errorOf (stats.map fun m => (aggregateNodeStatistics m).nodeErrors) id).map
            (⟨.stats, "ノード統計: ", ·⟩) ++
          (((scrubVariables vars id).bind ScrubVariables.problem).toList.map (⟨.vars, "", ·⟩) ++
            (errorOf (vars.map GarageMultiResponse.error) id).map (⟨.vars, "worker 変数: ", ·⟩)) ++
          (errorOf (workers.map ListWorkersMulti.error) id).map (⟨.workers, "worker 一覧: ", ·⟩)
        statsSeen := decide (id ∈ statsSeen stats)
        varsSeen := decide (id ∈ varsSeen vars) } := by
    have hstart : Merge.kept {} id = {} := rfl
    rw [mergeWorkers_kept, mergeVars_kept, mergeStats_kept, hstart, nodeHealth]
    simp
  rw [mergeInOrder]
  dsimp only
  rw [Merge.get_nodes, foldl_iteration (Merge.keyWise_finishRound _ _), Merge.get_nodes, hmerged]
  by_cases hseen : id ∈ statsSeen stats ++ varsSeen vars ++ workersSeen workers
  · have hpresent : (decide (id ∈ statsSeen stats) || decide (id ∈ varsSeen vars) ||
        decide (id ∈ workersSeen workers)) = true := by
      simpa only [Bool.or_eq_true, decide_eq_true_eq, List.mem_append] using hseen
    simp only [hpresent, if_true, Option.elim_some, missed_eq, Kept.node, Kept.addErrs]
    rw [if_pos hseen, Option.some.injEq, nodeHealth, problems]
    simp only [Merge.explained, List.append_assoc]
  · have habsent : (decide (id ∈ statsSeen stats) || decide (id ∈ varsSeen vars) ||
        decide (id ∈ workersSeen workers)) = false := by
      simpa only [Bool.or_eq_false_iff, decide_eq_false_iff_not, List.mem_append, not_or] using hseen
    rw [if_neg hseen]
    simp [habsent]

end Stages

end GarageConsole.Maintenance
