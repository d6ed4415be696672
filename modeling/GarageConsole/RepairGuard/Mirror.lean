import GarageConsole.RepairGuard.Coverage
import GarageConsole.RepairGuard.Screen

/-! # Two guards over the same answers

`Answers` are Garage's three answers in their documented shapes: integer counters, nodes with a role
and a draining flag, and for every node that answered a list of workers, empty or not. The backend's
guard and the one on the screen each read them their own way, and `screen_mirrors_iff` says on which
answers the two agree.
-/

namespace GarageConsole.RepairGuard

open Foundations Foundations.GoJson

set_option autoImplicit false

/-! ## Documented answers -/

inductive WorkerState where
  | named (state : String)
  | throttled (durationSecs : Number)
  deriving DecidableEq

def WorkerState.toJson : WorkerState → Json
  | .named state => .str state
  | .throttled durationSecs => .obj [("throttled", .obj [("durationSecs", .num durationSecs)])]

structure LastError where
  message : String
  secsAgo : ℤ
  deriving DecidableEq

structure WorkerAnswer where
  id : ℤ
  name : String
  state : WorkerState
  errors : ℤ
  consecutiveErrors : ℤ
  lastError : Option LastError
  tranquility : Option ℤ
  progress : Option String
  queueLength : Option ℤ
  persistentErrors : Option ℤ
  freeform : List String
  deriving DecidableEq

def optional {α : Type} (toJson : α → Json) : Option α → Json
  | none => .null
  | some v => toJson v

def integer (n : ℤ) : Json := .num (.int n)

def WorkerAnswer.members (w : WorkerAnswer) : List (String × Json) :=
  [("id", integer w.id), ("name", .str w.name), ("state", w.state.toJson), ("errors", integer w.errors),
   ("consecutiveErrors", integer w.consecutiveErrors),
   ("lastError", optional (fun e => .obj [("message", .str e.message), ("secsAgo", integer e.secsAgo)]) w.lastError),
   ("tranquility", optional integer w.tranquility), ("progress", optional .str w.progress),
   ("queueLength", optional integer w.queueLength), ("persistentErrors", optional integer w.persistentErrors),
   ("freeform", .arr (w.freeform.map .str))]

def WorkerAnswer.toJson (w : WorkerAnswer) : Json := .obj w.members

structure Answers where
  storageNodes : ℤ
  storageNodesUp : ℤ
  partitions : ℤ
  partitionsAllOk : ℤ
  nodes : List ClusterNode
  workers : GoMap (List WorkerAnswer)
  errors : GoMap String

/-! ## The backend's reading -/

namespace Answers

def counters (a : Answers) : CompleteHealth :=
  ⟨⟨some a.storageNodes, some a.storageNodesUp, some a.partitions, some a.partitionsAllOk⟩, rfl⟩

/-- A node as it is decoded: a hostname of `null` stores nothing. -/
def decodedNode (n : ClusterNode) : StatusNode := ⟨n.id, n.hostname.getD "", n.draining, n.role⟩

def status (a : Answers) : ClusterStatusNodes := ⟨some (a.nodes.map decodedNode)⟩

def listed (a : Answers) : ListWorkersMulti :=
  ⟨a.workers.mapValues fun ws => some (ws.map WorkerAnswer.toJson), a.errors⟩

def blockers (a : Answers) : RepairGuardVerdict :=
  destructiveRepairBlockers a.counters a.status.storageNodes a.listed

/-! ## The screen's reading -/

def healthData (a : Answers) : HealthData :=
  ⟨some (Double.ofInt a.storageNodes), some (Double.ofInt a.storageNodesUp),
   some (Double.ofInt a.partitions), some (Double.ofInt a.partitionsAllOk)⟩

def workersData (a : Answers) : WorkersData :=
  ⟨(flattenWorkers a.listed.success a.listed.error).workers.map WorkerEntry.marshalJSON,
   (flattenWorkers a.listed.success a.listed.error).errors⟩

def loaded {α : Type} (data : α) : QueryLike α := ⟨false, false, some data⟩

def evaluated (a : Answers) (repairType : String) : Evaluation :=
  evaluateRepairGuard (.name repairType)
    (guardInputsFrom (loaded a.healthData) (loaded a.workersData) (loaded a.nodes))

/-! ## What separates them -/

def Silent (a : Answers) (id : String) : Prop := a.workers.get id = none

def Empty (a : Answers) (id : String) : Prop := a.workers.get id = some []

def Busy (a : Answers) (id : String) : Prop :=
  ∃ ws, a.workers.get id = some ws ∧ ∃ w ∈ ws, w.name ∈ tableSyncWorkers ∧ w.state ≠ .named "idle"

def SomeStorage (a : Answers) (P : String → Prop) : Prop := ∃ n ∈ a.nodes, isStorageNode n = true ∧ P n.id

def Short (a : Answers) : Prop := a.storageNodesUp < a.storageNodes ∨ a.partitionsAllOk < a.partitions

/-- A counter falls short even when both are doubles. -/
def ShortAsDoubles (a : Answers) : Prop :=
  Double.ofInt a.storageNodesUp < Double.ofInt a.storageNodes ∨
    Double.ofInt a.partitionsAllOk < Double.ofInt a.partitions

theorem ShortAsDoubles.short {a : Answers} (h : a.ShortAsDoubles) : a.Short := by
  rcases h with h | h
  · left
    by_contra hle
    have := Double.ofInt_mono (not_lt.mp hle)
    omega
  · right
    by_contra hle
    have := Double.ofInt_mono (not_lt.mp hle)
    omega

end Answers

/-! ## Reading one worker -/

/-- The members of an entry that the guard does not read. -/
def unreadNames : List String :=
  ["id", "errors", "consecutiveErrors", "lastError", "tranquility", "progress", "queueLength", "persistentErrors",
   "freeform"]

theorem storeMember_unread {name : String} (h : name ∈ unreadNames) (w : WorkerStatus) (v : Json) :
    storeMember workerFields w (name, v) = some w := by
  have hfold : ∀ name ∈ unreadNames, (workerFields.all fun f => foldName f.1 ≠ foldName name) = true := by
    decide +kernel
  rw [storeMember, fieldOf_eq_none (hfold name h)]

theorem storeMember_name (w : WorkerStatus) (name : String) :
    storeMember workerFields w ("name", .str name) = some { w with name := name } := by
  simp [storeMember, fieldOf, workerFields, string]

theorem storeMember_state (w : WorkerStatus) (v : Json) :
    storeMember workerFields w ("state", v) = some { w with state := some v } := by
  simp [storeMember, fieldOf, workerFields, raw]

theorem readWorker_toJson (w : WorkerAnswer) : readWorker w.toJson = some ⟨w.name, some w.state.toJson⟩ := by
  rw [readWorker, workerStatus, WorkerAnswer.toJson, struct_obj, WorkerAnswer.members]
  simp (disch := decide) only [List.foldlM_cons, List.foldlM_nil, Option.bind_eq_bind, Option.bind_some,
    Option.pure_def, storeMember_name, storeMember_state, storeMember_unread]

theorem readEntry_toJson (id : String) (w : WorkerAnswer) :
    ∃ entry, readEntry id w.toJson = some entry ∧ entry.marshalJSON.get "nodeId" = some (.str id) ∧
      entry.marshalJSON.get "name" = some (.str w.name) ∧
      entry.marshalJSON.get "state" = some w.state.toJson := by
  refine ⟨_, rfl, ?_, ?_, ?_⟩ <;> simp [WorkerEntry.marshalJSON, GoMap.get_set]

theorem idle_iff (name : String) (state : WorkerState) :
    (⟨name, some state.toJson⟩ : WorkerStatus).idle = true ↔ state = .named "idle" := by
  cases state with
  | named s => simp [WorkerStatus.idle, WorkerState.toJson, string]
  | throttled secs => simp [WorkerStatus.idle, WorkerState.toJson, string]

theorem describeState_idle_iff (state : WorkerState) :
    describeState (some state.toJson) = .idle ↔ state = .named "idle" := by
  cases state with
  | named s =>
    simp only [WorkerState.toJson, describeState, WorkerState.named.injEq]
    split_ifs <;> simp_all
  | throttled secs => simp [WorkerState.toJson, describeState]

/-! ## Reading a node -/

theorem nodeQuiet_listed_iff (a : Answers) (id : String) :
    NodeQuiet a.listed id ↔ ¬a.Silent id ∧ ¬a.Busy id := by
  have hget : a.listed.success.get id = (a.workers.get id).map fun ws => some (ws.map WorkerAnswer.toJson) :=
    GoMap.get_mapValues _ _ _
  unfold NodeQuiet Answers.Silent Answers.Busy
  rw [hget]
  cases a.workers.get id with
  | none => simp
  | some ws =>
    simp only [Option.map_some, Option.some.injEq, exists_eq_left', reduceCtorEq, not_false_eq_true, true_and,
      Option.getD_some, List.forall_mem_map, readWorker_toJson, forall_eq', idle_iff]
    push Not
    rfl

theorem mem_workersData (a : Answers) (worker : GoMap Json) :
    worker ∈ a.workersData.workers ↔
      ∃ id ws w entry, a.workers.get id = some ws ∧ w ∈ ws ∧ readEntry id w.toJson = some entry ∧
        worker = entry.marshalJSON := by
  unfold Answers.workersData flattenWorkers
  simp only [List.mem_map, List.mem_insertionSort, List.mem_flatMap, List.mem_filterMap]
  constructor
  · rintro ⟨entry, ⟨⟨id, listed⟩, hmem, e, he, hentry⟩, rfl⟩
    rw [GoMap.mem_entries_iff, Answers.listed, GoMap.get_mapValues, Option.map_eq_some_iff] at hmem
    obtain ⟨ws, hget, rfl⟩ := hmem
    obtain ⟨w, hw, rfl⟩ := List.mem_map.mp he
    exact ⟨id, ws, w, entry, hget, hw, hentry, rfl⟩
  · rintro ⟨id, ws, w, entry, hget, hw, hentry, rfl⟩
    refine ⟨entry, ⟨(id, some (ws.map WorkerAnswer.toJson)), ?_, w.toJson, List.mem_map.mpr ⟨w, hw, rfl⟩, hentry⟩, rfl⟩
    rw [GoMap.mem_entries_iff, Answers.listed, GoMap.get_mapValues, hget]
    rfl

theorem answered_iff (a : Answers) (id : String) :
    a.workersData.answered id = true ↔ ¬a.Silent id ∧ ¬a.Empty id := by
  unfold WorkersData.answered Answers.Silent Answers.Empty
  rw [List.any_eq_true]
  constructor
  · rintro ⟨worker, hmem, hid⟩
    obtain ⟨id', ws, w, entry, hget, hw, hentry, rfl⟩ := (mem_workersData a worker).mp hmem
    obtain ⟨entry', hentry', hnode, -⟩ := readEntry_toJson id' w
    rw [hentry] at hentry'
    obtain rfl := Option.some.inj hentry'
    rw [hnode] at hid
    obtain rfl : id' = id := by simpa using hid
    rw [hget]
    refine ⟨by simp, ?_⟩
    intro hnil
    rw [Option.some.inj hnil] at hw
    exact absurd hw List.not_mem_nil
  · rintro ⟨hsilent, hempty⟩
    obtain ⟨ws, hget⟩ := Option.ne_none_iff_exists'.mp hsilent
    cases ws with
    | nil => exact absurd hget hempty
    | cons w ws =>
      obtain ⟨entry, hentry, hnode, -⟩ := readEntry_toJson id w
      refine ⟨entry.marshalJSON, (mem_workersData a _).mpr ⟨id, w :: ws, w, entry, hget, ?_, hentry, rfl⟩, ?_⟩
      · exact List.mem_cons_self
      · rw [hnode]
        simp

theorem syncing_eq_nil_iff (a : Answers) (id : String) : a.workersData.syncing id = [] ↔ ¬a.Busy id := by
  unfold WorkersData.syncing Answers.Busy
  rw [List.filterMap_eq_nil_iff]
  constructor
  · rintro hnone ⟨ws, hget, w, hw, hname, hbusy⟩
    obtain ⟨entry, hentry, hnode, hget_name, hget_state⟩ := readEntry_toJson id w
    have hmem : entry.marshalJSON ∈ a.workersData.workers :=
      (mem_workersData a _).mpr ⟨id, ws, w, entry, hget, hw, hentry, rfl⟩
    have := hnone entry.marshalJSON (List.mem_filter.mpr ⟨hmem, by simp [hnode]⟩)
    rw [hget_name, hget_state] at this
    have hkind : describeState (some w.state.toJson) ≠ .idle := fun h => hbusy ((describeState_idle_iff _).mp h)
    simp [hname, hkind] at this
  · intro hquiet worker hmem
    obtain ⟨hmem, hid⟩ := List.mem_filter.mp hmem
    obtain ⟨id', ws, w, entry, hget, hw, hentry, rfl⟩ := (mem_workersData a worker).mp hmem
    obtain ⟨entry', hentry', hnode, hget_name, hget_state⟩ := readEntry_toJson id' w
    rw [hentry] at hentry'
    obtain rfl := Option.some.inj hentry'
    rw [hnode] at hid
    obtain rfl : id' = id := by simpa using hid
    rw [hget_name, hget_state]
    by_cases hname : w.name ∈ tableSyncWorkers
    · have hidle : w.state = .named "idle" := by
        by_contra hbusy
        exact hquiet ⟨ws, hget, w, hw, hname, hbusy⟩
      simp [(describeState_idle_iff _).mpr hidle]
    · simp [hname]

/-! ## The verdicts -/

theorem not_someStorage_or {a : Answers} {P Q : String → Prop} :
    (∀ n ∈ a.nodes, isStorageNode n = true → ¬P n.id ∧ ¬Q n.id) ↔ ¬a.SomeStorage P ∧ ¬a.SomeStorage Q := by
  unfold Answers.SomeStorage
  constructor
  · intro h
    refine ⟨?_, ?_⟩
    · rintro ⟨n, hn, hs, hp⟩
      exact (h n hn hs).1 hp
    · rintro ⟨n, hn, hs, hq⟩
      exact (h n hn hs).2 hq
  · rintro ⟨hp, hq⟩ n hn hs
    exact ⟨fun h => hp ⟨n, hn, hs, h⟩, fun h => hq ⟨n, hn, hs, h⟩⟩

theorem blockers_eq_nil_iff (a : Answers) :
    a.blockers.reasons = [] ↔ ¬a.Short ∧ ¬a.SomeStorage a.Silent ∧ ¬a.SomeStorage a.Busy := by
  have hnodes : (∀ n ∈ a.status.storageNodes, NodeQuiet a.listed n.id) ↔
      ∀ n ∈ a.nodes, isStorageNode n = true → ¬a.Silent n.id ∧ ¬a.Busy n.id := by
    rw [storageNodes_forall _ (NodeQuiet _), Answers.status, Option.getD_some, List.forall_mem_map]
    simp only [← nodeQuiet_listed_iff]
    rfl
  have hshort : Undegraded a.counters ↔ ¬a.Short := by
    unfold Answers.Short
    rw [not_or, not_lt, not_lt]
    rfl
  rw [Answers.blockers, destructiveRepairBlockers_eq_nil, hnodes, hshort, not_someStorage_or]

theorem evaluateLoaded_eq_allowed_iff {inputs : GuardInputs} {whole up parts ok : ℤ} {workers : WorkersData}
    {ids : List String} :
    evaluateLoaded inputs whole up parts ok workers ids = .allowed ↔
      (whole ≤ up ∧ parts ≤ ok) ∧ ∀ id ∈ ids, workers.answered id = true ∧ workers.syncing id = [] := by
  have hmem : ∀ id, id ∈ ids.insertionSort (· ≤ ·) ↔ id ∈ ids := fun id => List.mem_insertionSort _
  unfold evaluateLoaded
  simp only [ite_eq_left_iff, reduceCtorEq, imp_false, not_not, List.append_eq_nil_iff, shortfall_eq_nil,
    List.map_eq_nil_iff, List.filter_eq_nil_iff, Bool.not_eq_true', hmem]
  constructor
  · rintro ⟨⟨hcounters, hsilent⟩, hsyncing⟩
    refine ⟨hcounters, fun id hid => ?_⟩
    have hanswered : workers.answered id = true := by simpa using hsilent id hid
    have hnil := List.flatMap_eq_nil_iff.mp hsyncing id (List.mem_filter.mpr ⟨(hmem id).mpr hid, hanswered⟩)
    exact ⟨hanswered, List.map_eq_nil_iff.mp hnil⟩
  · rintro ⟨hcounters, hall⟩
    refine ⟨⟨hcounters, fun id hid => by simp [(hall id hid).1]⟩, ?_⟩
    rw [List.flatMap_eq_nil_iff]
    intro id hid
    rw [(hall id ((hmem id).mp (List.mem_of_mem_filter hid))).2, List.map_nil]

theorem evaluated_eq_evaluateLoaded (a : Answers) {repairType : String} (hname : repairType ∈ destructiveRepairs) :
    a.evaluated repairType = evaluateLoaded
      (guardInputsFrom (Answers.loaded a.healthData) (Answers.loaded a.workersData) (Answers.loaded a.nodes))
      (Double.ofInt a.storageNodes) (Double.ofInt a.storageNodesUp) (Double.ofInt a.partitions)
      (Double.ofInt a.partitionsAllOk) a.workersData ((a.nodes.filter isStorageNode).map ClusterNode.id) := by
  have hgated : isDestructiveRepair (.name repairType) = true := by simpa [isDestructiveRepair] using hname
  simp [Answers.evaluated, evaluateRepairGuard, hgated, guardInputsFrom, Answers.loaded, fetchState,
    Answers.healthData]

theorem evaluated_eq_allowed_iff (a : Answers) {repairType : String} (hname : repairType ∈ destructiveRepairs) :
    a.evaluated repairType = .allowed ↔
      ¬a.ShortAsDoubles ∧ ¬a.SomeStorage a.Silent ∧ ¬a.SomeStorage a.Empty ∧ ¬a.SomeStorage a.Busy := by
  have hshort : (Double.ofInt a.storageNodes ≤ Double.ofInt a.storageNodesUp ∧
      Double.ofInt a.partitions ≤ Double.ofInt a.partitionsAllOk) ↔ ¬a.ShortAsDoubles := by
    rw [Answers.ShortAsDoubles, not_or, not_lt, not_lt]
  have hids : (∀ id ∈ (a.nodes.filter isStorageNode).map ClusterNode.id,
      a.workersData.answered id = true ∧ a.workersData.syncing id = []) ↔
      ∀ n ∈ a.nodes, isStorageNode n = true → ¬(a.Silent n.id ∨ a.Empty n.id) ∧ ¬a.Busy n.id := by
    simp only [List.forall_mem_map, List.mem_filter, and_imp, answered_iff, syncing_eq_nil_iff, not_or]
  have hor : a.SomeStorage (fun id => a.Silent id ∨ a.Empty id) ↔ a.SomeStorage a.Silent ∨ a.SomeStorage a.Empty := by
    simp only [Answers.SomeStorage, and_or_left, exists_or]
  rw [evaluated_eq_evaluateLoaded a hname, evaluateLoaded_eq_allowed_iff, hshort, hids,
    not_someStorage_or (P := fun id => a.Silent id ∨ a.Empty id), hor, not_or, and_assoc]

/-- **Where the screen mirrors the backend.** Either some storage node did not answer or is syncing,
or else: with no counter short no storage node's list is empty, and with a counter short the shortfall
survives the doubles or some storage node's list is empty. -/
theorem screen_mirrors_iff (a : Answers) {repairType : String} (hname : repairType ∈ destructiveRepairs) :
    (a.evaluated repairType = .allowed ↔ a.blockers.reasons = []) ↔
      (a.SomeStorage a.Silent ∨ a.SomeStorage a.Busy) ∨
        (¬a.Short ∧ ¬a.SomeStorage a.Empty) ∨ (a.Short ∧ (a.ShortAsDoubles ∨ a.SomeStorage a.Empty)) := by
  have hshort : a.ShortAsDoubles → a.Short := Answers.ShortAsDoubles.short
  rw [evaluated_eq_allowed_iff a hname, blockers_eq_nil_iff]
  by_cases hsilent : a.SomeStorage a.Silent
  · simp [hsilent]
  · by_cases hbusy : a.SomeStorage a.Busy
    · simp [hbusy]
    · -- every storage node answered and is quiet: only the counters and the empty lists are left
      by_cases hs : a.Short
      · simp [hsilent, hbusy, hs, imp_iff_not_or]
      · have hd : ¬a.ShortAsDoubles := fun h => hs (hshort h)
        simp [hsilent, hbusy, hs, hd]

def emptyListAnswers : Answers where
  storageNodes := 1
  storageNodesUp := 1
  partitions := 256
  partitionsAllOk := 256
  nodes := [⟨"a1b2", some "garage-0", some ⟨some 100⟩, false⟩]
  workers := GoMap.empty.set "a1b2" []
  errors := .empty

theorem screen_mirrors_empty_list :
    (emptyListAnswers.evaluated "blockRefs" = .allowed ↔ emptyListAnswers.blockers.reasons = []) ↔
      (emptyListAnswers.SomeStorage emptyListAnswers.Silent ∨ emptyListAnswers.SomeStorage emptyListAnswers.Busy) ∨
        (¬emptyListAnswers.Short ∧ ¬emptyListAnswers.SomeStorage emptyListAnswers.Empty) ∨
          (emptyListAnswers.Short ∧
            (emptyListAnswers.ShortAsDoubles ∨ emptyListAnswers.SomeStorage emptyListAnswers.Empty)) :=
  screen_mirrors_iff emptyListAnswers (by decide)

/-- The backend lets a launch through that the screen holds back. -/
theorem screen_differs :
    "blockRefs" ∈ destructiveRepairs ∧
      ¬(emptyListAnswers.evaluated "blockRefs" = .allowed ↔ emptyListAnswers.blockers.reasons = []) := by
  decide +kernel

end GarageConsole.RepairGuard
