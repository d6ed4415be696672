import GarageConsole.RepairGuard.Guard

/-! # Two readers of one repair body

The guard and Garage both read the bytes of a launch. The guard's reader is `encoding/json`: field
names are compared under case folding, the last member wins, `null` stores nothing, nesting beyond
`maxNestingDepth` is an error. Garage's is serde: the member is named exactly `repairType`, other
members are ignored, a repeated `repairType` is an error, and a unit variant is its name or the
object `{name: null}`.

A body that Garage reads as a destructive repair and the guard does not goes through unchecked.
`launch_checked_iff` says which bodies these are.
-/

namespace GarageConsole.RepairGuard

open Foundations Foundations.Text Foundations.GoJson Foundations.Calls GarageConsole.Garage

set_option autoImplicit false

/-! ## Garage's reader -/

/-- The name of a unit variant as serde reads it. -/
def unitVariant : Json → Option String
  | .str name => some name
  | .obj [(name, .null)] => some name
  | _ => none

/-- The unit repair type Garage reads from a body. -/
def garageReads (body : Bytes) : Option String :=
  match Json.parse body with
  | some (.obj members) =>
    match members.filter fun m => m.1 = "repairType" with
    | [(_, v)] => unitVariant v
    | _ => none
  | _ => none

def GarageReadsDestructive (body : Bytes) : Prop := ∃ name ∈ destructiveRepairs, garageReads body = some name

/-! ## The guard's reader -/

/-- The last member that the guard takes for `repairType` is a string naming a destructive repair. -/
def LastNamesDestructive (body : Bytes) : Prop :=
  ∃ members name, Json.parse body = some (.obj members) ∧ (Json.obj members).depth ≤ maxNestingDepth ∧
    lastMember "repairType" members = some (.str name) ∧ name ∈ destructiveRepairs

theorem not_destructive_empty : "" ∉ destructiveRepairs := by decide

/-- What the guard unmarshals: the last member named `repairType` under case folding. -/
theorem unmarshal_repairType (body : Bytes) :
    unmarshal (struct [("repairType", raw)]) none body =
      match Json.parse body with
      | some (.obj members) =>
        if (Json.obj members).depth ≤ maxNestingDepth then some (lastMember "repairType" members) else none
      | some .null => some none
      | _ => none := by
  unfold unmarshal
  cases hp : Json.parse body with
  | none => rfl
  | some v =>
    cases v with
    | obj members =>
      by_cases hd : (Json.obj members).depth ≤ maxNestingDepth
      · simp only [Option.bind_eq_bind, Option.bind_some, if_pos hd, struct_raw_singleton, Option.or_none]
      · simp [hd]
    | null => simp [Json.depth]
    | arr items => by_cases hd : (Json.arr items).depth ≤ maxNestingDepth <;> simp [hd, struct]
    | bool b => simp [Json.depth, struct]
    | num n => simp [Json.depth, struct]
    | str s => simp [Json.depth, struct]

theorem decodeRepairType_name (body : Bytes) :
    (decodeRepairType body).name =
      match unmarshal (struct [("repairType", raw)]) none body with
      | some (some (.str name)) => name
      | _ => "" := by
  unfold decodeRepairType
  rcases unmarshal (struct [("repairType", raw)]) none body with _ | _ | v
  · rfl
  · rfl
  · cases v with
    | obj members =>
      dsimp only [string]
      rcases map Json.null (fun _ v => some v) .empty (.obj members) with _ | ⟨_ | ⟨⟨k, v⟩, _ | _⟩, hnodup⟩
      · rfl
      · rfl
      · dsimp only
        split <;> rfl
      · rfl
    | null => rfl
    | bool => rfl
    | num => rfl
    | str => rfl
    | arr => rfl

theorem guard_reads_destructive_iff (body : Bytes) :
    (decodeRepairType body).name ∈ destructiveRepairs ↔ LastNamesDestructive body := by
  rw [decodeRepairType_name, unmarshal_repairType]
  unfold LastNamesDestructive
  constructor
  · intro h
    split at h
    · next name heq =>
      split at heq
      · next members hp =>
        by_cases hd : (Json.obj members).depth ≤ maxNestingDepth
        · rw [if_pos hd] at heq
          exact ⟨members, name, hp, hd, Option.some.inj heq, h⟩
        · simp [hd] at heq
      · simp at heq
      · simp at heq
    · exact absurd h not_destructive_empty
  · rintro ⟨members, name, hp, hd, hlast, hname⟩
    simpa [hp, hd, hlast] using hname

/-! ## The two routes -/

inductive RepairRoute where
  | cluster
  | node (id : String)

def RepairRoute.handle : RepairRoute → Incoming → GarageProg RepairCall Response
  | .cluster => handleLaunchRepair
  | .node id => handleLaunchNodeRepair id

def RepairRoute.limit : RepairRoute → ℕ
  | .cluster => maxRepairRequestBody
  | .node _ => maxNodeRequestBody

/-- The node the launch is for, as Garage is told; `none` when the route refuses the ID. -/
def RepairRoute.target : RepairRoute → Option String
  | .cluster => some "*"
  | .node id => (nodeIDParam id).toOption

theorem RepairRoute.handle_eq (route : RepairRoute) (incoming : Incoming) :
    (∃ node, route.target = some node ∧ route.handle incoming = launchRepair route.limit node incoming) ∨
      (route.target = none ∧ ∃ response, route.handle incoming = .ret response) := by
  cases route with
  | cluster => exact .inl ⟨"*", rfl, rfl⟩
  | node id =>
    simp only [target, handle, handleLaunchNodeRepair]
    cases nodeIDParam id with
    | ok id' => exact .inl ⟨id', rfl, rfl⟩
    | error response => exact .inr ⟨rfl, response, rfl⟩

def Forwarded (body : Bytes) (log : GarageLog RepairCall) : Prop :=
  ∃ node reply, ⟨.launchRepairOperation node body, reply⟩ ∈ log

/-- The guard asked its three questions, and the answers were readable and passed every check. -/
def Evaluated (log : GarageLog RepairCall) : Prop :=
  ∃ rh rs rk h s w, ⟨.getClusterHealth, rh⟩ ∈ log ∧ ⟨.getClusterStatus, rs⟩ ∈ log ∧ ⟨.listWorkers, rk⟩ ∈ log ∧
    readHealth rh = .ok h ∧ readStatus rs = .ok s ∧ readWorkers rk = .ok w ∧ Safe h s w

/-- A destructive launch is forwarded only after the cluster was evaluated. -/
def LaunchChecked (body : Bytes) (log : GarageLog RepairCall) : Prop :=
  Forwarded body log → GarageReadsDestructive body → Evaluated log

theorem permitted_evaluated {body : Bytes} {asked : GarageLog RepairCall}
    (hrun : Runs (guardDestructiveRepair body) asked none) :
    ((decodeRepairType body).name ∈ destructiveRepairs ∧ Evaluated asked) ∨
      ((decodeRepairType body).name ∉ destructiveRepairs ∧ asked = []) := by
  rw [guardDestructiveRepair_runs] at hrun
  by_cases hname : (decodeRepairType body).name ∈ destructiveRepairs
  · rw [if_pos hname] at hrun
    obtain ⟨rh, rs, rk, rfl, hverdict⟩ := hrun
    obtain ⟨h, s, w, hh, hs, hw, hsafe⟩ := guardVerdict_eq_none.mp hverdict.symm
    exact .inl ⟨hname, rh, rs, rk, h, s, w, by simp, by simp, by simp, hh, hs, hw, hsafe⟩
  · rw [if_neg hname] at hrun
    exact .inr ⟨hname, hrun.1⟩

theorem Evaluated.append {asked : GarageLog RepairCall} (h : Evaluated asked) (rest : GarageLog RepairCall) :
    Evaluated (asked ++ rest) := by
  obtain ⟨rh, rs, rk, h, s, w, h₁, h₂, h₃, hread⟩ := h
  exact ⟨rh, rs, rk, h, s, w, List.mem_append_left _ h₁, List.mem_append_left _ h₂,
    List.mem_append_left _ h₃, hread⟩

/-- **Which launches are checked.** On every run with a body within the limit, the launch is checked
exactly when the route refuses its ID, Garage does not read the body as a destructive repair, or the
last member the guard takes for `repairType` is a string naming one. -/
theorem launch_checked_iff (route : RepairRoute) (body : Bytes) (hsize : body.length ≤ route.limit)
    {log : GarageLog RepairCall} {response : Response}
    (hrun : Runs (route.handle (.complete body)) log response) :
    LaunchChecked body log ↔
      route.target = none ∨ ¬GarageReadsDestructive body ∨ LastNamesDestructive body := by
  rcases route.handle_eq (.complete body) with ⟨node, htarget, hhandle⟩ | ⟨htarget, refused, hhandle⟩
  · rw [hhandle, launchRepair_runs hsize] at hrun
    obtain ⟨asked, out, rest, rfl, hguard, hout⟩ := hrun
    constructor
    · intro hchecked
      by_contra hcond
      simp only [htarget, reduceCtorEq, false_or, not_or, not_not] at hcond
      obtain ⟨hgarage, hlast⟩ := hcond
      have hname : (decodeRepairType body).name ∉ destructiveRepairs :=
        fun h => hlast ((guard_reads_destructive_iff body).mp h)
      -- the guard takes the body for a harmless one: it asks nothing and permits
      rw [guardDestructiveRepair_runs, if_neg hname] at hguard
      obtain ⟨rfl, rfl⟩ := hguard
      obtain ⟨reply, rfl, -⟩ := hout
      obtain ⟨rh, -, -, -, -, -, hmem, -⟩ := hchecked ⟨node, reply, by simp⟩ hgarage
      simp at hmem
    · rintro hcond ⟨node', reply', hmem⟩ hgarage
      have hlast : LastNamesDestructive body := by
        simpa [htarget, hgarage] using hcond
      have hname := (guard_reads_destructive_iff body).mpr hlast
      cases out with
      | none =>
        rcases permitted_evaluated hguard with ⟨-, heval⟩ | ⟨hno, -⟩
        · exact heval.append rest
        · exact absurd hname hno
      | some refused =>
        -- a refusing run has made no launch
        rw [guardDestructiveRepair_runs, if_pos hname] at hguard
        obtain ⟨rh, rs, rk, rfl, -⟩ := hguard
        obtain ⟨rfl, -⟩ := hout
        simp at hmem
  · rw [hhandle, runs_ret] at hrun
    obtain ⟨rfl, -⟩ := hrun
    refine ⟨fun _ => .inl htarget, ?_⟩
    rintro - ⟨node, reply, hmem⟩
    simp at hmem

def versionsBody : Bytes := bytes "\x7b\"repairType\":\"versions\"\x7d"

def allReplicas : Reply := .answered 200 "application/json" (some (bytes
  "\x7b\"storageNodes\":1,\"storageNodesUp\":1,\"partitions\":256,\"partitionsAllOk\":256\x7d"))

def oneStorageNode : Reply := .answered 200 "application/json" (some (bytes
  "\x7b\"nodes\":[\x7b\"id\":\"a1b2\",\"role\":\x7b\"capacity\":1000\x7d\x7d]\x7d"))

def versionsSynced : Reply := .answered 200 "application/json" (some (bytes
  "\x7b\"success\":\x7b\"a1b2\":[\x7b\"name\":\"version sync\",\"state\":\"idle\"\x7d]\x7d,\"error\":\x7b\x7d\x7d"))

/-- A destructive repair that is launched after the three questions. -/
def guardedLaunch : GarageLog RepairCall :=
  [⟨.getClusterHealth, allReplicas⟩, ⟨.getClusterStatus, oneStorageNode⟩, ⟨.listWorkers, versionsSynced⟩,
    ⟨.launchRepairOperation "*" versionsBody, .unreachable⟩]

theorem versions_launched :
    Runs (RepairRoute.cluster.handle (.complete versionsBody)) guardedLaunch (forwardResponse .unreachable) := by
  have hname : (decodeRepairType versionsBody).name ∈ destructiveRepairs := by decide +kernel
  have hguard : Runs (guardDestructiveRepair versionsBody)
      [⟨.getClusterHealth, allReplicas⟩, ⟨.getClusterStatus, oneStorageNode⟩, ⟨.listWorkers, versionsSynced⟩] none := by
    rw [guardDestructiveRepair_runs, if_pos hname]
    exact ⟨allReplicas, oneStorageNode, versionsSynced, rfl, by decide +kernel⟩
  have hsize : versionsBody.length ≤ maxRepairRequestBody := by decide +kernel
  exact (launchRepair_runs hsize).mpr ⟨_, none, _, rfl, hguard, .unreachable, rfl, rfl⟩

theorem launch_checked_versions :
    LaunchChecked versionsBody guardedLaunch ↔
      RepairRoute.cluster.target = none ∨ ¬GarageReadsDestructive versionsBody ∨
        LastNamesDestructive versionsBody :=
  launch_checked_iff .cluster versionsBody (by decide +kernel) versions_launched

theorem unguarded_runs {body : Bytes} (hsize : body.length ≤ RepairRoute.cluster.limit)
    (hname : (decodeRepairType body).name ∉ destructiveRepairs) (reply : Reply) :
    Runs (RepairRoute.cluster.handle (.complete body)) [⟨.launchRepairOperation "*" body, reply⟩]
      (forwardResponse reply) := by
  have hguard : Runs (guardDestructiveRepair body) [] none := by
    rw [guardDestructiveRepair_runs, if_neg hname]
    exact ⟨rfl, rfl⟩
  exact (launchRepair_runs hsize).mpr ⟨[], none, _, rfl, hguard, reply, rfl, rfl⟩

/-- The object form of a unit variant: Garage reads `blockRefs` and the guard reads no name. -/
def unitVariantBody : Bytes := bytes "\x7b\"repairType\":\x7b\"blockRefs\":null\x7d\x7d"

theorem launch_unchecked :
    Runs (RepairRoute.cluster.handle (.complete unitVariantBody))
        [⟨.launchRepairOperation "*" unitVariantBody, .unreachable⟩] (forwardResponse .unreachable) ∧
      unitVariantBody.length ≤ RepairRoute.cluster.limit ∧
      ¬LaunchChecked unitVariantBody [⟨.launchRepairOperation "*" unitVariantBody, .unreachable⟩] := by
  refine ⟨unguarded_runs (by decide +kernel) (by decide +kernel) .unreachable, by decide +kernel, ?_⟩
  intro hchecked
  have hforwarded : Forwarded unitVariantBody [⟨.launchRepairOperation "*" unitVariantBody, .unreachable⟩] :=
    ⟨"*", .unreachable, List.mem_singleton_self _⟩
  obtain ⟨rh, -, -, -, -, -, hmem, -⟩ := hchecked hforwarded ⟨"blockRefs", by decide, by decide +kernel⟩
  cases List.mem_singleton.mp hmem

end GarageConsole.RepairGuard
