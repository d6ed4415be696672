import GarageConsole.Foundations.Double
import GarageConsole.RepairGuard.Guard

/-! # The guard on the screen

`evaluateRepairGuard` is the copy of the guard that the UI disables its button with. It reads the
same three answers another way: the workers come as one flat list (`flattenWorkers`), every number is
a double, and a node has answered when the list holds a worker of it.
-/

namespace GarageConsole.RepairGuard

open Foundations Foundations.GoJson

set_option autoImplicit false

/-! ## GET /api/workers -/

/-- One worker of one node; the ID is only sorted by. -/
structure WorkerEntry where
  nodeID : String
  id : ℤ
  raw : GoMap Json
  deriving DecidableEq

structure WorkersResponse where
  workers : List WorkerEntry
  errors : GoMap String

/-- A number read as a double and cut to an integer. Numbers that overflow one are not described. -/
def truncated : Number → ℤ
  | .int n => Double.ofInt n
  | .minusZero => 0
  | .dec mantissa exponent =>
    if 0 ≤ exponent then Double.ofInt (mantissa * 10 ^ exponent.toNat)
    else mantissa.tdiv (10 ^ (-exponent).toNat)

def workerID (raw : GoMap Json) : ℤ :=
  match raw.get "id" with
  | some (.num n) => truncated n
  | _ => 0

def readEntry (nodeID : String) (entry : Json) : Option WorkerEntry :=
  (map Json.null (fun _ v => some v) .empty entry).map fun raw => ⟨nodeID, workerID raw, raw⟩

def WorkerEntry.before (a b : WorkerEntry) : Prop := a.nodeID < b.nodeID ∨ a.nodeID = b.nodeID ∧ a.id ≤ b.id

instance : DecidableRel WorkerEntry.before := fun a b =>
  inferInstanceAs (Decidable (a.nodeID < b.nodeID ∨ a.nodeID = b.nodeID ∧ a.id ≤ b.id))

def flattenWorkers (success : GoMap (Option (List Json))) (errors : GoMap String) : WorkersResponse where
  workers := (success.entries.flatMap fun node =>
    (node.2.getD []).filterMap (readEntry node.1)).insertionSort WorkerEntry.before
  errors := errors

/-- The wire form of an entry: its own members and `nodeId`. -/
def WorkerEntry.marshalJSON (w : WorkerEntry) : GoMap Json := w.raw.set "nodeId" (.str w.nodeID)

/-! ## What the browser holds -/

inductive FetchState where
  | pending
  | success
  | error
  deriving DecidableEq

structure QueryLike (α : Type) where
  isPending : Bool
  isError : Bool
  data : Option α

def fetchState {α : Type} (q : QueryLike α) : FetchState :=
  if q.isError then .error else if q.isPending then .pending else .success

/-- The counters of GET /api/cluster/health; `none` is what is not a finite number. -/
structure HealthData where
  storageNodes : Option ℤ
  storageNodesUp : Option ℤ
  partitions : Option ℤ
  partitionsAllOk : Option ℤ

structure ClusterNode where
  id : String
  hostname : Option String
  role : Option Role
  draining : Bool
  deriving DecidableEq

/-- Workers as the browser reads them: the members of each object. -/
structure WorkersData where
  workers : List (GoMap Json)
  errors : GoMap String

/-- The hostname, or the first 16 characters of the ID (hexadecimal digits). -/
def nodeDisplayName (id : String) (hostname : Option String) : String :=
  match hostname with
  | some name => if name = "" then String.ofList (id.toList.take 16) ++ "…" else name
  | none => String.ofList (id.toList.take 16) ++ "…"

def isStorageNode (n : ClusterNode) : Bool :=
  match n.role with
  | some r => r.capacity.isSome
  | none => n.draining

inductive StateKind where
  | idle
  | busy
  | throttled
  | done
  | other
  deriving DecidableEq

/-- The kind that `describeState` gives a state. -/
def describeState : Option Json → StateKind
  | some (.obj members) => if members.any (fun m => m.1 = "throttled") then .throttled else .other
  | some (.str s) =>
    if s = "idle" then .idle else if s = "busy" then .busy else if s = "done" then .done else .other
  | _ => .other

structure GuardInputs where
  health : FetchState × Option HealthData
  workers : FetchState × Option WorkersData
  storageNodeIds : Option (List String)
  nodeNames : List (String × String)

def guardInputsFrom (health : QueryLike HealthData) (workers : QueryLike WorkersData)
    (status : QueryLike (List ClusterNode)) : GuardInputs where
  health := (fetchState health, health.data)
  workers := (fetchState workers, workers.data)
  storageNodeIds := status.data.map fun nodes => (nodes.filter isStorageNode).map ClusterNode.id
  nodeNames := (status.data.getD []).map fun n => (n.id, nodeDisplayName n.id n.hostname)

/-! ## The evaluation -/

/-- A repair type of the UI: one of the names, or a scrub command. -/
inductive RepairTypeArg where
  | name (repairType : String)
  | scrub (command : String)
  deriving DecidableEq

def isDestructiveRepair : RepairTypeArg → Bool
  | .name repairType => repairType ∈ destructiveRepairs
  | .scrub _ => false

inductive Evaluation where
  | allowed
  | blocked (reasons : List String) (advice : String)
  deriving DecidableEq

def unknownReason (what : String) : String := what ++ "を取得できないため、安全に実行できるか判断できません"

/-- The name of a node in messages; of equal IDs the last one names it. -/
def GuardInputs.nameOf (inputs : GuardInputs) (id : String) : String :=
  (inputs.nodeNames.reverse.lookup id).getD (nodeDisplayName id (some ""))

def WorkersData.answered (w : WorkersData) (id : String) : Bool :=
  w.workers.any fun worker => worker.get "nodeId" = some (.str id)

def WorkersData.syncing (w : WorkersData) (id : String) : List String :=
  (w.workers.filter fun worker => worker.get "nodeId" = some (.str id)).filterMap fun worker =>
    match worker.get "name" with
    | some (.str name) =>
      if name ∈ tableSyncWorkers ∧ describeState (worker.get "state") ≠ .idle then some name else none
    | _ => none

/-- Whether the repair may be launched, from numbers and workers that are there. -/
def evaluateLoaded (inputs : GuardInputs) (storageNodes storageNodesUp partitions partitionsAllOk : ℤ)
    (workers : WorkersData) (storageNodeIds : List String) : Evaluation :=
  let counters :=
    shortfall storageNodes storageNodesUp ("ストレージノードが停止中です (稼働 " ++ Double.text storageNodesUp ++ " / " ++
      Double.text storageNodes ++ ")") ++
    shortfall partitions partitionsAllOk ("全レプリカが揃っているパーティションが " ++ Double.text partitionsAllOk ++ " / " ++
      Double.text partitions ++ " しかありません")
  let ids := storageNodeIds.insertionSort (· ≤ ·)
  let silent := (ids.filter fun id => !workers.answered id).map fun id =>
    inputs.nameOf id ++ " のワーカー状態を取得できません (" ++ (workers.errors.get id).getD "no answer" ++ ")"
  let syncing := (ids.filter fun id => workers.answered id).flatMap fun id =>
    (workers.syncing id).map fun name => inputs.nameOf id ++ ": " ++ name ++ " が実行中"
  let reasons := counters ++ silent ++
    if syncing = [] then [] else ["テーブルの同期が進行中です (" ++ "、".intercalate syncing ++ ")"]
  if reasons = [] then .allowed
  else .blocked reasons
    (if counters ≠ [] then "ストレージノードの復旧を待ち、その後「テーブル修復」で同期を終えてから実行してください。"
    else "同期が終わる (各テーブルの sync ワーカーが idle になる) まで待ってから実行してください。")

def evaluateRepairGuard (repairType : RepairTypeArg) (inputs : GuardInputs) : Evaluation :=
  if !isDestructiveRepair repairType then .allowed
  else if inputs.health.1 = .pending ∨ inputs.workers.1 = .pending then .blocked ["クラスタの状態を取得中です"] ""
  else if inputs.health.1 = .error then .blocked [unknownReason "クラスタの状態"] ""
  else match inputs.health.2 with
    | some ⟨some storageNodes, some storageNodesUp, some partitions, some partitionsAllOk⟩ =>
      if inputs.workers.1 = .error then .blocked [unknownReason "ワーカーの状態"] ""
      else match inputs.workers.2, inputs.storageNodeIds with
        | none, _ => .blocked [unknownReason "ワーカーの状態"] ""
        | some _, none => .blocked [unknownReason "ノードの役割"] ""
        | some workers, some storageNodeIds =>
          evaluateLoaded inputs storageNodes storageNodesUp partitions partitionsAllOk workers storageNodeIds
    | _ => .blocked [unknownReason "クラスタの状態"] ""

end GarageConsole.RepairGuard
