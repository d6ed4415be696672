import Mathlib.Data.List.Sort
import GarageConsole.Garage.Client

/-! # The destructive-repair guard

`guardDestructiveRepair` reads the body of a repair launch and, for a repair that deletes metadata,
asks Garage for the cluster health, the node roles and the workers before it lets the launch
through. `handleLaunchRepair` and `handleLaunchNodeRepair` are the two routes that end in it.

The three questions are put to Garage side by side in the source; none depends on another's answer,
so they are three calls in a row here. `guardDestructiveRepair_runs` says what one run of the guard
is: the calls it made and `guardVerdict` of their replies.
-/

namespace GarageConsole.RepairGuard

open Foundations Foundations.Text Foundations.GoJson Foundations.Calls GarageConsole.Garage

set_option autoImplicit false

/-- The calls of the repair routes. A node is named by `*` or by an ID that needs no escaping. -/
inductive RepairCall where
  | getClusterHealth
  | getClusterStatus
  | listWorkers
  | launchRepairOperation (node : String) (body : Bytes)
  deriving DecidableEq

instance : GarageCall RepairCall where
  path
    | .getClusterHealth => "/v2/GetClusterHealth"
    | .getClusterStatus => "/v2/GetClusterStatus"
    | .listWorkers => "/v2/ListWorkers?node=*"
    | .launchRepairOperation node _ => "/v2/LaunchRepairOperation?node=" ++ node

def destructiveRepairs : List String := ["versions", "blockRefs", "blockRc", "multipartUploads"]

def tableSyncWorkers : List String :=
  ["object sync", "version sync", "block_ref sync", "multipart_upload sync"]

/-! ## The request -/

structure RepairType where
  name : String
  objKey : String
  objValue : String
  ok : Bool
  deriving DecidableEq, Repr

def RepairType.unreadable : RepairType := ⟨"", "", "", false⟩

/-- The body of a LaunchRepairOperation request: a plain string, or a one-key object. -/
def decodeRepairType (body : Bytes) : RepairType :=
  match unmarshal (struct [("repairType", raw)]) none body with
  | some (some repairType) =>
    match string "" repairType with
    | some name => ⟨name, "", "", true⟩
    | none =>
      match map Json.null (fun _ v => some v) .empty repairType with
      | some ⟨[(k, v)], _⟩ =>
        match string "" v with
        | some objValue => ⟨"", k, objValue, true⟩
        | none => .unreadable
      | _ => .unreadable
  | _ => .unreadable

/-! ## Garage's three answers -/

/-- The subset of GetClusterHealth the guard reads; `none` is a counter missing from the answer. -/
structure ClusterHealth where
  storageNodes : Option ℤ := none
  storageNodesUp : Option ℤ := none
  partitions : Option ℤ := none
  partitionsAllOk : Option ℤ := none
  deriving DecidableEq, Repr

def ClusterHealth.complete (h : ClusterHealth) : Bool :=
  h.storageNodes.isSome && h.storageNodesUp.isSome && h.partitions.isSome && h.partitionsAllOk.isSome

def clusterHealth : Decoder ClusterHealth := struct
  [("storageNodes", fun h v => (pointer 0 int64 h.storageNodes v).map ({ h with storageNodes := · })),
   ("storageNodesUp", fun h v => (pointer 0 int64 h.storageNodesUp v).map ({ h with storageNodesUp := · })),
   ("partitions", fun h v => (pointer 0 int64 h.partitions v).map ({ h with partitions := · })),
   ("partitionsAllOk", fun h v => (pointer 0 int64 h.partitionsAllOk v).map ({ h with partitionsAllOk := · }))]

/-- A health answer with all four counters, which the comparisons may dereference. -/
abbrev CompleteHealth := { h : ClusterHealth // h.complete = true }

namespace CompleteHealth

theorem isSome_all (h : CompleteHealth) :
    h.1.storageNodes.isSome ∧ h.1.storageNodesUp.isSome ∧ h.1.partitions.isSome ∧
      h.1.partitionsAllOk.isSome := by
  have hc := h.2
  simp only [ClusterHealth.complete, Bool.and_eq_true] at hc
  exact ⟨hc.1.1.1, hc.1.1.2, hc.1.2, hc.2⟩

def storageNodes (h : CompleteHealth) : ℤ := h.1.storageNodes.get h.isSome_all.1
def storageNodesUp (h : CompleteHealth) : ℤ := h.1.storageNodesUp.get h.isSome_all.2.1
def partitions (h : CompleteHealth) : ℤ := h.1.partitions.get h.isSome_all.2.2.1
def partitionsAllOk (h : CompleteHealth) : ℤ := h.1.partitionsAllOk.get h.isSome_all.2.2.2

end CompleteHealth

structure Role where
  capacity : Option ℤ := none
  deriving DecidableEq, Repr

structure StatusNode where
  id : String := ""
  hostname : String := ""
  draining : Bool := false
  role : Option Role := none
  deriving DecidableEq, Repr

structure ClusterStatusNodes where
  nodes : Option (List StatusNode) := none
  deriving DecidableEq, Repr

def role : Decoder Role := struct
  [("capacity", fun r v => (pointer 0 int64 r.capacity v).map ({ r with capacity := · }))]

def statusNode : Decoder StatusNode := struct
  [("id", fun n v => (string n.id v).map ({ n with id := · })),
   ("hostname", fun n v => (string n.hostname v).map ({ n with hostname := · })),
   ("draining", fun n v => (bool n.draining v).map ({ n with draining := · })),
   ("role", fun n v => (pointer {} role n.role v).map ({ n with role := · }))]

def clusterStatusNodes : Decoder ClusterStatusNodes := struct
  [("nodes", fun s v => (slice {} statusNode s.nodes v).map ({ s with nodes := · }))]

structure StorageNode where
  id : String
  name : String
  deriving DecidableEq, Repr

/-- A role with capacity, or no role while draining. -/
def StatusNode.isStorage (n : StatusNode) : Bool :=
  match n.role with
  | some r => r.capacity.isSome
  | none => n.draining

def StatusNode.displayName (n : StatusNode) : String :=
  if n.hostname = "" then
    if 16 < (bytes n.id).length then toText ((bytes n.id).take 16) ++ "…" else n.id
  else n.hostname

def ClusterStatusNodes.storageNodes (s : ClusterStatusNodes) : List StorageNode :=
  (((s.nodes.getD []).filter StatusNode.isStorage).map fun n => ⟨n.id, n.displayName⟩).insertionSort
    fun a b => a.id ≤ b.id

/-- Garage's MultiResponse for ListWorkers. -/
structure ListWorkersMulti where
  success : GoMap (Option (List Json)) := .empty
  error : GoMap String := .empty
  deriving DecidableEq

def listWorkersMulti : Decoder ListWorkersMulti := struct
  [("success", fun m v => (map none (slice Json.null fun _ v => some v) m.success v).map ({ m with success := · })),
   ("error", fun m v => (map "" string m.error v).map ({ m with error := · }))]

structure WorkerStatus where
  name : String := ""
  state : Option Json := none
  deriving DecidableEq

def workerFields : List (GoJson.Field WorkerStatus) :=
  [("name", fun w v => (string w.name v).map ({ w with name := · })),
   ("state", fun w v => (raw w.state v).map ({ w with state := · }))]

def workerStatus : Decoder WorkerStatus := struct workerFields

def WorkerStatus.idle (w : WorkerStatus) : Bool :=
  match w.state with
  | some v => string "" v = some "idle"
  | none => false

def readWorker (entry : Json) : Option WorkerStatus := workerStatus {} entry

/-! ## The health checks -/

structure RepairGuardVerdict where
  reasons : List String
  advice : String
  deriving DecidableEq, Repr

def shortfall (whole part : ℤ) (reason : String) : List String := if part < whole then [reason] else []

def syncingWorkers (n : StorageNode) (entries : List Json) : List String :=
  (entries.filterMap readWorker).filterMap fun w =>
    if w.name ∈ tableSyncWorkers ∧ ¬w.idle then some (n.name ++ ": " ++ w.name ++ " が実行中") else none

/-- What a node adds: a reason when it did not answer, else its workers that are syncing. -/
def checkNode (workers : ListWorkersMulti) (n : StorageNode) : List String × List String :=
  match workers.success.get n.id with
  | none =>
    let msg := (workers.error.get n.id).getD ""
    ([n.name ++ " のワーカー状態を取得できません (" ++ (if msg = "" then "no answer" else msg) ++ ")"], [])
  | some entries => ([], syncingWorkers n (entries.getD []))

def destructiveRepairBlockers (h : CompleteHealth) (nodes : List StorageNode) (workers : ListWorkersMulti) :
    RepairGuardVerdict :=
  let counters :=
    shortfall h.storageNodes h.storageNodesUp
      ("ストレージノードが停止中です (稼働 " ++ toString h.storageNodesUp ++ " / " ++ toString h.storageNodes ++ ")") ++
    shortfall h.partitions h.partitionsAllOk
      ("全レプリカが揃っているパーティションが " ++ toString h.partitionsAllOk ++ " / " ++ toString h.partitions ++
        " しかありません")
  let checks := nodes.map (checkNode workers)
  let syncing := checks.flatMap Prod.snd
  let reasons := counters ++ checks.flatMap Prod.fst ++
    if syncing = [] then [] else ["テーブルの同期が進行中です (" ++ "、".intercalate syncing ++ ")"]
  ⟨reasons,
    if counters ≠ [] then "ストレージノードの復旧を待ち、その後 tables repair で同期を終えてから実行してください"
    else if reasons ≠ [] then
      "同期が終わる (各テーブルの sync ワーカーが idle になる) まで待ってから実行してください"
    else ""⟩

/-! ## The guard and its routes -/

def unknown (name what : String) : Response :=
  writeJSONError 502 (what ++ "を取得できないため、" ++ name ++ " を安全に実行できるか判断できません")

def refusal (name : String) (v : RepairGuardVerdict) : Response :=
  ⟨409, .json (.obj
    [("advice", .str v.advice),
     ("error", .str (name ++ " は実行できません: " ++ "。".intercalate v.reasons ++ "。" ++ v.advice)),
     ("reasons", .arr (v.reasons.map .str)),
     ("repairType", .str name)])⟩

def readHealth : Reply → Except GarageError ClusterHealth :=
  readReply (GarageCall.path RepairCall.getClusterHealth) clusterHealth {}

def readStatus : Reply → Except GarageError ClusterStatusNodes :=
  readReply (GarageCall.path RepairCall.getClusterStatus) clusterStatusNodes {}

def readWorkers : Reply → Except GarageError ListWorkersMulti :=
  readReply (GarageCall.path RepairCall.listWorkers) listWorkersMulti {}

/-- What the guard makes of the three answers: `none` lets the launch through, otherwise the
response that refuses it. -/
def guardVerdict (name : String) (health : Except GarageError ClusterHealth)
    (status : Except GarageError ClusterStatusNodes) (workers : Except GarageError ListWorkersMulti) :
    Option Response :=
  match health with
  | .error _ => some (unknown name "クラスタの状態")
  | .ok h =>
    if hc : h.complete = true then
      match status, workers with
      | .error _, _ => some (unknown name "ノードの役割")
      | .ok _, .error _ => some (unknown name "ワーカーの状態")
      | .ok s, .ok w =>
        let v := destructiveRepairBlockers ⟨h, hc⟩ s.storageNodes w
        if v.reasons = [] then none else some (refusal name v)
    else some (unknown name "クラスタの状態")

/-- `none` when the caller may forward the request to Garage, else the response already written. -/
def guardDestructiveRepair (body : Bytes) : GarageProg RepairCall (Option Response) :=
  let name := (decodeRepairType body).name
  if name ∈ destructiveRepairs then do
    let health ← garageRequestJSON RepairCall.getClusterHealth clusterHealth {}
    let status ← garageRequestJSON RepairCall.getClusterStatus clusterStatusNodes {}
    let workers ← garageRequestJSON RepairCall.listWorkers listWorkersMulti {}
    return guardVerdict name health status workers
  else return none

def launchRepair (limit : ℕ) (node : String) (incoming : Incoming) : GarageProg RepairCall Response :=
  match readRequestBody limit incoming with
  | .error response => return response
  | .ok body => do
    match ← guardDestructiveRepair body with
    | some response => return response
    | none => proxyGarageRequest (.launchRepairOperation node body)

def maxRepairRequestBody : ℕ := 4 * 1024

def maxNodeRequestBody : ℕ := 64 * 1024

/-- `POST /api/repair`. -/
def handleLaunchRepair (incoming : Incoming) : GarageProg RepairCall Response :=
  launchRepair maxRepairRequestBody "*" incoming

/-- `POST /api/nodes/{id}/repair`. -/
def handleLaunchNodeRepair (id : String) (incoming : Incoming) : GarageProg RepairCall Response :=
  match nodeIDParam id with
  | .error response => return response
  | .ok id => launchRepair maxNodeRequestBody id incoming

/-! ## What the checks mean -/

/-- No storage node is down and no partition lacks a replica. -/
def Undegraded (h : CompleteHealth) : Prop :=
  h.storageNodes ≤ h.storageNodesUp ∧ h.partitions ≤ h.partitionsAllOk

/-- The node answered, and none of its readable table-sync entries is other than idle. -/
def NodeQuiet (workers : ListWorkersMulti) (id : String) : Prop :=
  ∃ entries, workers.success.get id = some entries ∧
    ∀ e ∈ entries.getD [], ∀ w, readWorker e = some w → w.name ∈ tableSyncWorkers → w.idle = true

theorem shortfall_eq_nil {whole part : ℤ} {reason : String} : shortfall whole part reason = [] ↔ whole ≤ part := by
  unfold shortfall
  split <;> simp <;> omega

theorem syncingWorkers_eq_nil {n : StorageNode} {entries : List Json} :
    syncingWorkers n entries = [] ↔
      ∀ e ∈ entries, ∀ w, readWorker e = some w → w.name ∈ tableSyncWorkers → w.idle = true := by
  unfold syncingWorkers
  rw [List.filterMap_eq_nil_iff]
  constructor
  · intro h e he w hw hname
    have hnone := h w (List.mem_filterMap.mpr ⟨e, he, hw⟩)
    by_contra hidle
    simp [hname, hidle] at hnone
  · intro h w hw
    obtain ⟨e, he, hread⟩ := List.mem_filterMap.mp hw
    by_cases hname : w.name ∈ tableSyncWorkers
    · simp [h e he w hread hname]
    · simp [hname]

theorem checkNode_eq_nil {workers : ListWorkersMulti} {n : StorageNode} :
    (checkNode workers n).1 = [] ∧ (checkNode workers n).2 = [] ↔ NodeQuiet workers n.id := by
  unfold checkNode NodeQuiet
  cases workers.success.get n.id with
  | none => simp
  | some entries => simp [syncingWorkers_eq_nil]

theorem destructiveRepairBlockers_eq_nil {h : CompleteHealth} {nodes : List StorageNode}
    {workers : ListWorkersMulti} :
    (destructiveRepairBlockers h nodes workers).reasons = [] ↔
      Undegraded h ∧ ∀ n ∈ nodes, NodeQuiet workers n.id := by
  have hchecks : (∀ n ∈ nodes, NodeQuiet workers n.id) ↔
      (nodes.map (checkNode workers)).flatMap Prod.fst = [] ∧
        (nodes.map (checkNode workers)).flatMap Prod.snd = [] := by
    simp only [List.flatMap_eq_nil_iff, List.mem_map, forall_exists_index, and_imp,
      forall_apply_eq_imp_iff₂, ← checkNode_eq_nil]
    exact ⟨fun h => ⟨fun n hn => (h n hn).1, fun n hn => (h n hn).2⟩, fun h n hn => ⟨h.1 n hn, h.2 n hn⟩⟩
  simp only [destructiveRepairBlockers, List.append_eq_nil_iff, shortfall_eq_nil, hchecks, Undegraded]
  constructor
  · rintro ⟨⟨hcounters, hfst⟩, hsnd⟩
    refine ⟨hcounters, hfst, ?_⟩
    by_contra hne
    simp [hne] at hsnd
  · rintro ⟨hcounters, hfst, hsnd⟩
    exact ⟨⟨hcounters, hfst⟩, by simp [hsnd]⟩

theorem storageNodes_forall (s : ClusterStatusNodes) (P : String → Prop) :
    (∀ n ∈ s.storageNodes, P n.id) ↔ ∀ n ∈ s.nodes.getD [], n.isStorage = true → P n.id := by
  unfold ClusterStatusNodes.storageNodes
  constructor
  · intro h n hn hstorage
    refine h ⟨n.id, n.displayName⟩ ?_
    rw [List.mem_insertionSort, List.mem_map]
    exact ⟨n, List.mem_filter.mpr ⟨hn, hstorage⟩, rfl⟩
  · intro h n hn
    rw [List.mem_insertionSort, List.mem_map] at hn
    obtain ⟨m, hm, rfl⟩ := hn
    obtain ⟨hmem, hstorage⟩ := List.mem_filter.mp hm
    exact h m hmem hstorage

/-- The three answers pass every check of the guard. -/
def Safe (h : ClusterHealth) (s : ClusterStatusNodes) (w : ListWorkersMulti) : Prop :=
  ∃ hc : h.complete = true, Undegraded ⟨h, hc⟩ ∧
    ∀ n ∈ s.nodes.getD [], n.isStorage = true → NodeQuiet w n.id

/-- The guard lets a launch through exactly when all three answers are readable and pass. -/
theorem guardVerdict_eq_none {name : String} {health : Except GarageError ClusterHealth}
    {status : Except GarageError ClusterStatusNodes} {workers : Except GarageError ListWorkersMulti} :
    guardVerdict name health status workers = none ↔
      ∃ h s w, health = .ok h ∧ status = .ok s ∧ workers = .ok w ∧ Safe h s w := by
  unfold guardVerdict Safe
  cases health with
  | error => simp
  | ok h =>
    by_cases hc : h.complete = true
    · cases status <;> cases workers <;>
        simp [hc, destructiveRepairBlockers_eq_nil, storageNodes_forall _ (NodeQuiet _)]
    · simp [hc]

/-! ## What the runs are -/

theorem garageRequestJSON_bind_runs {α β : Type} {r : RepairCall} {dec : Decoder α} {zero : α}
    {f : Except GarageError α → GarageProg RepairCall β} {log : GarageLog RepairCall} {b : β} :
    Runs (garageRequestJSON r dec zero >>= f) log b ↔
      ∃ reply rest, log = ⟨r, reply⟩ :: rest ∧ Runs (f (readReply (GarageCall.path r) dec zero reply)) rest b := by
  simp [garageRequestJSON]

/-- A run of the guard: three calls and the verdict on their replies, or nothing at all. -/
theorem guardDestructiveRepair_runs {body : Bytes} {log : GarageLog RepairCall} {out : Option Response} :
    Runs (guardDestructiveRepair body) log out ↔
      if (decodeRepairType body).name ∈ destructiveRepairs then
        ∃ rh rs rk, log = [⟨.getClusterHealth, rh⟩, ⟨.getClusterStatus, rs⟩, ⟨.listWorkers, rk⟩] ∧
          out = guardVerdict (decodeRepairType body).name (readHealth rh) (readStatus rs) (readWorkers rk)
      else log = [] ∧ out = none := by
  unfold guardDestructiveRepair
  by_cases hname : (decodeRepairType body).name ∈ destructiveRepairs
  · simp only [hname, if_true, garageRequestJSON_bind_runs, Prog.pure_eq, runs_ret]
    constructor
    · rintro ⟨rh, _, rfl, rs, _, rfl, rk, _, rfl, rfl, rfl⟩
      exact ⟨rh, rs, rk, rfl, rfl⟩
    · rintro ⟨rh, rs, rk, rfl, rfl⟩
      exact ⟨rh, _, rfl, rs, _, rfl, rk, _, rfl, rfl, rfl⟩
  · simp [hname]

/-- A launch within the limit runs the guard, and then sends the body on if the guard lets it. -/
theorem launchRepair_runs {limit : ℕ} {node : String} {body : Bytes} {log : GarageLog RepairCall}
    {response : Response} (hsize : body.length ≤ limit) :
    Runs (launchRepair limit node (.complete body)) log response ↔
      ∃ asked out rest, log = asked ++ rest ∧ Runs (guardDestructiveRepair body) asked out ∧
        match out with
        | some refused => rest = [] ∧ response = refused
        | none => ∃ reply, rest = [⟨.launchRepairOperation node body, reply⟩] ∧
            response = forwardResponse reply := by
  have hread : readRequestBody limit (.complete body) = .ok body := by
    simp [readRequestBody, Incoming.received, hsize]
  unfold launchRepair
  simp only [hread, runs_bind]
  constructor
  · rintro ⟨asked, out, rest, rfl, hguard, hrest⟩
    refine ⟨asked, out, rest, rfl, hguard, ?_⟩
    cases out with
    | some refused => simpa using hrest
    | none => simpa [proxyGarageRequest] using hrest
  · rintro ⟨asked, out, rest, rfl, hguard, hrest⟩
    refine ⟨asked, out, rest, rfl, hguard, ?_⟩
    cases out with
    | some refused => simpa using hrest
    | none => simpa [proxyGarageRequest] using hrest

end GarageConsole.RepairGuard
