import Mathlib.Data.Int.DivMod
import GarageConsole.RepairGuard.Guard

/-! # The storage health of the nodes

Three questions go to every node: its statistics, its worker variables and its workers.
`buildStorageHealth` merges the answers by node. The source fills a map while it walks through them; here
the entry of each node is written down by itself (`nodeHealth`), its problems in the order in which the
source adds them. A metric that is missing is explained: by a problem of the node, or by the failure of the
whole question (`reported_of_no_error`).
-/

namespace GarageConsole.Maintenance

open Foundations Foundations.Text Foundations.GoJson GarageConsole.Garage GarageConsole.RepairGuard

set_option autoImplicit false

/-! ## The answers -/

structure BlockManagerStats where
  resyncQueueLen : ℤ := 0
  resyncErrors : ℤ := 0
  deriving DecidableEq

/-- The subset of GetNodeStatistics that is read; a node may not report block manager statistics. -/
structure NodeStatisticsMulti where
  success : GoMap (Option BlockManagerStats) := .empty
  error : GoMap String := .empty
  deriving DecidableEq

/-- Garage's envelope for questions to a node. -/
structure GarageMultiResponse where
  success : GoMap Json := .empty
  error : GoMap String := .empty
  deriving DecidableEq

structure NodeBlockStats where
  nodeID : String
  resyncQueueLen : ℤ
  resyncErrors : ℤ
  deriving DecidableEq

structure MaintenanceMetrics where
  resyncQueueLength : ℤ
  resyncErrored : ℤ
  nodes : List NodeBlockStats
  nodeErrors : GoMap String

/-- The sum in int64. -/
def sumInt64 (ns : List ℤ) : ℤ := ns.foldl (fun acc n => (acc + n).bmod 18446744073709551616) 0

def blockStatsOf (entry : String × Option BlockManagerStats) : Option NodeBlockStats :=
  entry.2.map fun s => ⟨entry.1, s.resyncQueueLen, s.resyncErrors⟩

def aggregateNodeStatistics (multi : NodeStatisticsMulti) : MaintenanceMetrics :=
  let nodes := multi.success.entries.filterMap blockStatsOf
  let silent := (multi.success.filter fun entry => entry.2.isNone).mapValues fun _ =>
    "blockManagerStats not reported (Garage < v2.3.0?)"
  { resyncQueueLength := sumInt64 (nodes.map NodeBlockStats.resyncQueueLen)
    resyncErrored := sumInt64 (nodes.map NodeBlockStats.resyncErrors)
    nodes := nodes.insertionSort fun a b => a.nodeID ≤ b.nodeID
    nodeErrors := silent.merge multi.error }

/-! ## The response -/

structure ScrubWorkerStatus where
  state : Option Json := none
  progress : Option String := none
  tranquility : Option ℤ := none
  deriving DecidableEq

structure NodeStorageHealth where
  resyncQueueLen : Option ℤ := none
  resyncErrors : Option ℤ := none
  scrubCorruptions : Option ℤ := none
  scrubLastCompleted : Option String := none
  scrub : Option ScrubWorkerStatus := none
  error : String := ""
  statsError : String := ""
  varsError : String := ""
  workersError : String := ""
  deriving DecidableEq

structure StorageHealthResponse where
  nodes : GoMap NodeStorageHealth := .empty
  statsError : String := ""
  varsError : String := ""
  workersError : String := ""

def scrubWorkerName : String := "Block scrub worker"

def statsUnavailableMsg : String := "ノード統計の取得に失敗しました"
def varsUnavailableMsg : String := "worker 変数の取得に失敗しました"
def workersUnavailableMsg : String := "worker 一覧の取得に失敗しました"
def nodeNotAnsweredMsg : String := "ノードが応答しませんでした"

/-- The fixed text, with the message of Garage's own error answer if it has one. -/
def garageUserMessage (e : GarageError) (fallback : String) : String :=
  match e with
  | .status _ _ _ body =>
    match unmarshal (struct [("message", string)]) "" body with
    | some message => if message ≠ "" then fallback ++ ": " ++ message else fallback
    | none => fallback
  | _ => fallback

def failure {α : Type} (answer : Except GarageError α) (fallback : String) : String :=
  match answer with
  | .error e => garageUserMessage e fallback
  | .ok _ => ""

/-! ## One node -/

inductive FanOut where
  | stats
  | vars
  | workers
  deriving DecidableEq

/-- A problem of a node: the question it belongs to, its text, and what precedes it in `error`. -/
structure Problem where
  source : FanOut
  heading : String
  msg : String
  deriving DecidableEq

/-- `strconv.ParseInt(s, 10, 64)`. -/
def parseInt64 (s : Bytes) : Option ℤ :=
  let digits := if s.head? = some 0x2B ∨ s.head? = some 0x2D then s.tail else s
  let value : ℕ := digits.foldl (fun acc b => acc * 10 + (b.toNat - 0x30)) 0
  let n : ℤ := if s.head? = some 0x2D then -value else value
  if digits = [] ∨ (digits.any fun b => b < 0x30 ∨ 0x39 < b) then none
  else if -int64Bound ≤ n ∧ n < int64Bound then some n
  else none

structure ScrubVariables where
  corruptions : Option ℤ := none
  lastCompleted : Option String := none
  problem : Option String := none
  deriving DecidableEq

/-- The worker variables of a node. -/
def readScrubVariables (raw : Json) : ScrubVariables :=
  match map "" string .empty raw with
  | none => { problem := some "worker 変数の応答が不正です" }
  | some m =>
    let lastCompleted := m.get "scrub-last-completed"
    match m.get "scrub-corruptions_detected" with
    | none => { lastCompleted := lastCompleted, problem := some "scrub-corruptions_detected が報告されていません" }
    | some v =>
      match parseInt64 (trimSpace (bytes v)) with
      | some c => { corruptions := some c, lastCompleted := lastCompleted }
      | none =>
        { lastCompleted := lastCompleted, problem := some ("scrub-corruptions_detected を解釈できません: " ++ v) }

structure NamedWorker where
  name : String := ""
  status : ScrubWorkerStatus := {}
  deriving DecidableEq

def namedWorker : Decoder NamedWorker := struct
  [("name", fun w v => (string w.name v).map ({ w with name := · })),
   ("state", fun w v => (raw w.status.state v).map fun state => { w with status := { w.status with state := state } }),
   ("progress", fun w v => (pointer "" string w.status.progress v).map fun progress =>
      { w with status := { w.status with progress := progress } }),
   ("tranquility", fun w v => (pointer 0 int64 w.status.tranquility v).map fun tranquility =>
      { w with status := { w.status with tranquility := tranquility } })]

/-- The first entry that reads as the scrub worker. -/
def findScrubWorker (list : List Json) : Option ScrubWorkerStatus :=
  list.findSome? fun entry =>
    match namedWorker {} entry with
    | some w => if w.name = scrubWorkerName then some w.status else none
    | none => none

section Build

variable (stats : Except GarageError NodeStatisticsMulti) (vars : Except GarageError GarageMultiResponse)
  (workers : Except GarageError ListWorkersMulti)

def blockStats (id : String) : Option NodeBlockStats :=
  match stats with
  | .error _ => none
  | .ok multi => (aggregateNodeStatistics multi).nodes.find? fun b => b.nodeID = id

def scrubVariables (id : String) : Option ScrubVariables :=
  match vars with
  | .error _ => none
  | .ok multi => (multi.success.get id).map readScrubVariables

def scrubWorker (id : String) : Option ScrubWorkerStatus :=
  match workers with
  | .error _ => none
  | .ok multi => (multi.success.get id).bind fun list => findScrubWorker (list.getD [])

/-- The nodes that the answer to a question names. -/
def statsSeen : List String :=
  match stats with
  | .error _ => []
  | .ok multi => (aggregateNodeStatistics multi).nodes.map NodeBlockStats.nodeID ++
      (aggregateNodeStatistics multi).nodeErrors.keys

def varsSeen : List String :=
  match vars with
  | .error _ => []
  | .ok multi => multi.success.keys ++ multi.error.keys

def workersSeen : List String :=
  match workers with
  | .error _ => []
  | .ok multi => multi.success.keys ++ multi.error.keys

def errorOf (errors : Except GarageError (GoMap String)) (id : String) : List String :=
  match errors with
  | .error _ => []
  | .ok m => (m.get id).toList

/-- A node that another question found and this one did not. -/
def notAnswered {α : Type} (answer : Except GarageError α) (seen : List String) (id : String) : List String :=
  match answer with
  | .error _ => []
  | .ok _ => if id ∈ seen then [] else [nodeNotAnsweredMsg]

def problems (id : String) : List Problem :=
  (errorOf (stats.map fun m => (aggregateNodeStatistics m).nodeErrors) id).map (⟨.stats, "ノード統計: ", ·⟩) ++
  ((scrubVariables vars id).bind ScrubVariables.problem).toList.map (⟨.vars, "", ·⟩) ++
  (errorOf (vars.map GarageMultiResponse.error) id).map (⟨.vars, "worker 変数: ", ·⟩) ++
  (errorOf (workers.map ListWorkersMulti.error) id).map (⟨.workers, "worker 一覧: ", ·⟩) ++
  (notAnswered stats (statsSeen stats) id).map (⟨.stats, "ノード統計: ", ·⟩) ++
  (notAnswered vars (varsSeen vars) id).map (⟨.vars, "worker 変数: ", ·⟩)

def joined (msgs : List String) : String := "; ".intercalate msgs

def messagesOf (source : FanOut) (problems : List Problem) : List String :=
  (problems.filter fun p => p.source = source).map Problem.msg

def nodeHealth (id : String) : NodeStorageHealth :=
  let problems := problems stats vars workers id
  { resyncQueueLen := (blockStats stats id).map NodeBlockStats.resyncQueueLen
    resyncErrors := (blockStats stats id).map NodeBlockStats.resyncErrors
    scrubCorruptions := (scrubVariables vars id).bind ScrubVariables.corruptions
    scrubLastCompleted := (scrubVariables vars id).bind ScrubVariables.lastCompleted
    scrub := scrubWorker workers id
    error := joined (problems.map fun p => p.heading ++ p.msg)
    statsError := joined (messagesOf .stats problems)
    varsError := joined (messagesOf .vars problems)
    workersError := joined (messagesOf .workers problems) }

def buildStorageHealth : StorageHealthResponse where
  nodes := .ofKeys (nodeHealth stats vars workers) (statsSeen stats ++ varsSeen vars ++ workersSeen workers)
  statsError := failure stats statsUnavailableMsg
  varsError := failure vars varsUnavailableMsg
  workersError := failure workers workersUnavailableMsg

end Build

/-! ## The statistics of a node -/

def statsIn (multi : NodeStatisticsMulti) (id : String) : Option BlockManagerStats := (multi.success.get id).join

def BlockManagerStats.of (s : BlockManagerStats) (id : String) : NodeBlockStats :=
  ⟨id, s.resyncQueueLen, s.resyncErrors⟩

theorem mem_nodes_iff {multi : NodeStatisticsMulti} {b : NodeBlockStats} :
    b ∈ (aggregateNodeStatistics multi).nodes ↔ ∃ s, statsIn multi b.nodeID = some s ∧ b = s.of b.nodeID := by
  rw [aggregateNodeStatistics]
  dsimp only
  rw [List.mem_insertionSort, List.mem_filterMap]
  constructor
  · rintro ⟨⟨id, reported⟩, hmem, hb⟩
    obtain ⟨s, rfl, rfl⟩ := Option.map_eq_some_iff.mp hb
    rw [GoMap.mem_entries_iff] at hmem
    exact ⟨s, by rw [statsIn, hmem, Option.join_some], rfl⟩
  · rintro ⟨s, hs, hb⟩
    refine ⟨(b.nodeID, some s), ?_, by rw [hb]; rfl⟩
    rw [GoMap.mem_entries_iff]
    exact Option.join_eq_some_iff.mp hs

theorem blockStats_ok (multi : NodeStatisticsMulti) (id : String) :
    blockStats (.ok multi) id = (statsIn multi id).map fun s => s.of id := by
  rw [blockStats]
  cases hfind : (aggregateNodeStatistics multi).nodes.find? fun b => b.nodeID = id with
  | some b =>
    have hid : b.nodeID = id := by simpa using List.find?_some hfind
    obtain ⟨s, hs, hb⟩ := mem_nodes_iff.mp (List.mem_of_find?_eq_some hfind)
    rw [hid] at hs hb
    rw [hs, hb, Option.map_some]
  | none =>
    rw [List.find?_eq_none] at hfind
    cases hs : statsIn multi id with
    | none => rfl
    | some s =>
      have hmem : s.of id ∈ (aggregateNodeStatistics multi).nodes := mem_nodes_iff.mpr ⟨s, hs, rfl⟩
      exact absurd (decide_eq_true (rfl : (s.of id).nodeID = id)) (hfind _ hmem)

theorem mem_map_nodeID {multi : NodeStatisticsMulti} {id : String} :
    id ∈ (aggregateNodeStatistics multi).nodes.map NodeBlockStats.nodeID ↔ (statsIn multi id).isSome = true := by
  rw [List.mem_map, Option.isSome_iff_exists]
  constructor
  · rintro ⟨b, hb, rfl⟩
    obtain ⟨s, hs, -⟩ := mem_nodes_iff.mp hb
    exact ⟨s, hs⟩
  · rintro ⟨s, hs⟩
    exact ⟨s.of id, mem_nodes_iff.mpr ⟨s, hs, rfl⟩, rfl⟩

theorem mem_nodeErrors {multi : NodeStatisticsMulti} {id : String} :
    id ∈ (aggregateNodeStatistics multi).nodeErrors.keys ↔
      id ∈ multi.error.keys ∨ multi.success.get id = some none := by
  rw [aggregateNodeStatistics, GoMap.mem_keys_merge, GoMap.keys_mapValues, GoMap.mem_keys_iff (GoMap.filter _ _)]
  simp only [GoMap.get_filter]
  refine or_congr_right ⟨?_, fun h => ⟨none, h, rfl⟩⟩
  rintro ⟨reported, hget, hnone⟩
  rwa [Option.isNone_iff_eq_none.mp hnone] at hget

/-- The nodes that the statistics name are those that answered and those that failed. -/
theorem mem_statsSeen {multi : NodeStatisticsMulti} {id : String} :
    id ∈ statsSeen (.ok multi) ↔ id ∈ multi.success.keys ∨ id ∈ multi.error.keys := by
  rw [statsSeen, List.mem_append, mem_map_nodeID, mem_nodeErrors, GoMap.mem_keys_iff multi.success, statsIn]
  cases hget : multi.success.get id with
  | none => simp
  | some reported => cases reported <;> simp

/-! ## What is missing is explained -/

theorem eq_nil_of_joined {msgs : List String} (hne : ∀ m ∈ msgs, m ≠ "") (h : joined msgs = "") : msgs = [] := by
  cases msgs with
  | nil => rfl
  | cons m rest =>
    cases rest with
    | nil =>
      rw [joined, String.intercalate_singleton] at h
      exact absurd h (hne m List.mem_cons_self)
    | cons m' rest =>
      rw [joined, String.intercalate_cons_cons, String.append_eq_empty_iff, String.append_eq_empty_iff] at h
      exact absurd h.1.1 (hne m List.mem_cons_self)

theorem problem_ne_empty {raw : Json} {msg : String} (h : (readScrubVariables raw).problem = some msg) : msg ≠ "" := by
  unfold readScrubVariables at h
  split at h
  · obtain rfl := Option.some.inj h
    decide
  · split at h
    · obtain rfl := Option.some.inj h
      decide
    · split at h
      · cases h
      · obtain rfl := Option.some.inj h
        simp [String.append_eq_empty_iff]

section Explained

variable {stats : Except GarageError NodeStatisticsMulti} {vars : Except GarageError GarageMultiResponse}
  {workers : Except GarageError ListWorkersMulti} {id : String}

theorem heading_msg_ne_empty {p : Problem} (hp : p ∈ problems stats vars workers id) : p.heading ++ p.msg ≠ "" := by
  simp only [problems, List.mem_append, List.mem_map, Option.mem_toList, Option.bind_eq_some_iff] at hp
  rw [Ne, String.append_eq_empty_iff]
  rintro ⟨hheading, hmsg⟩
  have hstats : ("ノード統計: " : String) ≠ "" := by decide
  have hvars : ("worker 変数: " : String) ≠ "" := by decide
  have hworkers : ("worker 一覧: " : String) ≠ "" := by decide
  rcases hp with ((((⟨m, -, rfl⟩ | ⟨m, ⟨v, hv, hm⟩, rfl⟩) | ⟨m, -, rfl⟩) | ⟨m, -, rfl⟩) | ⟨m, -, rfl⟩) | ⟨m, -, rfl⟩
  · exact hstats hheading
  · cases vars with
    | error e => cases hv
    | ok multi =>
      obtain ⟨raw, -, rfl⟩ := Option.map_eq_some_iff.mp hv
      exact problem_ne_empty hm hmsg
  · exact hvars hheading
  · exact hworkers hheading
  · exact hstats hheading
  · exact hvars hheading

theorem problems_eq_nil (h : (nodeHealth stats vars workers id).error = "") : problems stats vars workers id = [] := by
  have hmsgs : ∀ m ∈ (problems stats vars workers id).map fun p => p.heading ++ p.msg, m ≠ "" := by
    intro m hm
    obtain ⟨p, hp, rfl⟩ := List.mem_map.mp hm
    exact heading_msg_ne_empty hp
  exact List.map_eq_nil_iff.mp (eq_nil_of_joined hmsgs h)

theorem seen_of_answered {α : Type} {answer : α} {seen : List String}
    (h : notAnswered (.ok answer : Except GarageError α) seen id = []) : id ∈ seen := by
  rw [notAnswered] at h
  by_contra hnot
  rw [if_neg hnot] at h
  cases h

theorem not_mem_keys_of_errorOf {m : GoMap String} (h : errorOf (.ok m) id = []) : id ∉ m.keys := by
  rw [GoMap.mem_keys_iff]
  rintro ⟨msg, hget⟩
  rw [errorOf, hget] at h
  cases h

theorem corruptions_of_no_problem {raw : Json} (h : (readScrubVariables raw).problem = none) :
    (readScrubVariables raw).corruptions.isSome = true := by
  unfold readScrubVariables at h ⊢
  cases hm : map "" string .empty raw with
  | none => simp [hm] at h
  | some m =>
    rw [hm] at h
    dsimp only at h ⊢
    cases hv : m.get "scrub-corruptions_detected" with
    | none => simp [hv] at h
    | some v =>
      rw [hv] at h
      dsimp only at h ⊢
      cases hc : parseInt64 (trimSpace (bytes v)) with
      | none => simp [hc] at h
      | some c => rfl

/-- A node that is neither in error nor missing has statistics. -/
theorem stats_of_answered {multi : NodeStatisticsMulti}
    (herrors : errorOf (.ok (aggregateNodeStatistics multi).nodeErrors) id = [])
    (hanswered : notAnswered (.ok multi : Except GarageError _) (statsSeen (.ok multi)) id = []) :
    (statsIn multi id).isSome = true := by
  have hnot := not_mem_keys_of_errorOf herrors
  have hseen := seen_of_answered hanswered
  rw [statsSeen, List.mem_append, mem_map_nodeID] at hseen
  exact hseen.resolve_right hnot

/-- A node that is neither in error nor missing has a corruption counter, or a problem that says why not. -/
theorem corruptions_of_answered {multi : GarageMultiResponse}
    (hproblem : (scrubVariables (.ok multi) id).bind ScrubVariables.problem = none)
    (herrors : errorOf (.ok multi.error) id = [])
    (hanswered : notAnswered (.ok multi : Except GarageError _) (varsSeen (.ok multi)) id = []) :
    ((scrubVariables (.ok multi) id).bind ScrubVariables.corruptions).isSome = true := by
  have hnot := not_mem_keys_of_errorOf herrors
  have hseen := seen_of_answered hanswered
  rw [varsSeen, List.mem_append] at hseen
  obtain ⟨raw, hraw⟩ := (GoMap.mem_keys_iff _).mp (hseen.resolve_right hnot)
  have hread : scrubVariables (.ok multi) id = some (readScrubVariables raw) := by
    rw [scrubVariables, hraw, Option.map_some]
  rw [hread, Option.bind_some] at hproblem ⊢
  exact corruptions_of_no_problem hproblem

/-- A node without a problem reported its statistics. -/
theorem stats_of_no_error {multi : NodeStatisticsMulti} (h : (nodeHealth (.ok multi) vars workers id).error = "") :
    (statsIn multi id).isSome = true := by
  have hnil := problems_eq_nil h
  simp only [problems, List.append_eq_nil_iff, List.map_eq_nil_iff, Except.map] at hnil
  obtain ⟨⟨⟨⟨⟨herrors, -⟩, -⟩, -⟩, hanswered⟩, -⟩ := hnil
  exact stats_of_answered herrors hanswered

/-- A node without a problem reported its corruption counter. -/
theorem corruptions_of_no_error {multi : GarageMultiResponse}
    (h : (nodeHealth stats (.ok multi) workers id).error = "") :
    (nodeHealth stats (.ok multi) workers id).scrubCorruptions.isSome = true := by
  have hnil := problems_eq_nil h
  simp only [problems, List.append_eq_nil_iff, List.map_eq_nil_iff, Option.toList_eq_nil_iff, Except.map] at hnil
  obtain ⟨⟨⟨⟨⟨-, hproblem⟩, herrors⟩, -⟩, -⟩, hanswered⟩ := hnil
  exact corruptions_of_answered hproblem herrors hanswered

end Explained

/-- A question that failed as a whole says so. -/
theorem failure_eq_empty {α : Type} {answer : Except GarageError α} {fallback : String} (hne : fallback ≠ "")
    (h : failure answer fallback = "") : ∃ multi, answer = .ok multi := by
  cases answer with
  | ok multi => exact ⟨multi, rfl⟩
  | error e =>
    exfalso
    rw [failure] at h
    unfold garageUserMessage at h
    split at h
    · split at h
      · split_ifs at h
        · rw [String.append_eq_empty_iff, String.append_eq_empty_iff] at h
          exact hne h.1.1
        · exact hne h
      · exact hne h
    · exact hne h

end GarageConsole.Maintenance
