import GarageConsole.RepairGuard.Guard

/-! # Answers that leave something out

The guard refuses on what its three answers show: one that is unreadable, a counter that is missing
or falls short, a storage node that did not answer, a table-sync entry that is not idle. A node list
or a worker entry that is not there shows nothing, and `guard_fails_closed_iff` says when a permitted
launch nevertheless rests on complete information.
-/

namespace GarageConsole.RepairGuard

open Foundations Foundations.Text Foundations.GoJson Foundations.Calls GarageConsole.Garage

set_option autoImplicit false

def Lists (w : ListWorkersMulti) (id name : String) : Prop :=
  ∃ entries, w.success.get id = some entries ∧
    ∃ e ∈ entries.getD [], ∃ worker, readWorker e = some worker ∧ worker.name = name

def AllIdle (w : ListWorkersMulti) (id name : String) : Prop :=
  ∀ entries, w.success.get id = some entries →
    ∀ e ∈ entries.getD [], ∀ worker, readWorker e = some worker → worker.name = name → worker.idle = true

def Unanswered (w : ListWorkersMulti) (id : String) : Prop := w.success.get id = none

def Syncing (w : ListWorkersMulti) (id : String) : Prop :=
  ∃ entries, w.success.get id = some entries ∧
    ∃ e ∈ entries.getD [], ∃ worker, readWorker e = some worker ∧ worker.name ∈ tableSyncWorkers ∧
      worker.idle = false

theorem nodeQuiet_iff {w : ListWorkersMulti} {id : String} :
    NodeQuiet w id ↔ ¬Unanswered w id ∧ ¬Syncing w id := by
  unfold NodeQuiet Unanswered Syncing
  constructor
  · rintro ⟨entries, hget, hidle⟩
    refine ⟨by simp [hget], ?_⟩
    rintro ⟨entries', hget', e, he, worker, hread, hname, hbusy⟩
    rw [hget] at hget'
    obtain rfl := Option.some.inj hget'
    have := hidle e he worker hread hname
    simp [hbusy] at this
  · rintro ⟨hanswered, hquiet⟩
    obtain ⟨entries, hget⟩ := Option.ne_none_iff_exists'.mp hanswered
    refine ⟨entries, hget, ?_⟩
    intro e he worker hread hname
    by_contra hbusy
    exact hquiet ⟨entries, hget, e, he, worker, hread, hname, by simpa using hbusy⟩

theorem NodeQuiet.allIdle {w : ListWorkersMulti} {id name : String} (h : NodeQuiet w id)
    (hname : name ∈ tableSyncWorkers) : AllIdle w id name := by
  obtain ⟨entries, hget, hidle⟩ := h
  intro entries' hget' e he worker hread heq
  rw [hget] at hget'
  obtain rfl := Option.some.inj hget'
  exact hidle e he worker hread (heq ▸ hname)

/-! ## The three answers -/

/-- The answers show a reason to refuse. -/
def ShowReason (rh rs rk : Reply) : Prop :=
  (∃ e, readHealth rh = .error e) ∨ (∃ e, readStatus rs = .error e) ∨ (∃ e, readWorkers rk = .error e) ∨
    (∃ h, readHealth rh = .ok h ∧ (h.complete = false ∨ ∃ hc, ¬Undegraded ⟨h, hc⟩)) ∨
    ∃ s w, readStatus rs = .ok s ∧ readWorkers rk = .ok w ∧
      ∃ n ∈ s.nodes.getD [], n.isStorage = true ∧ (Unanswered w n.id ∨ Syncing w n.id)

/-- The status lists nodes, and every storage node lists every table-sync worker. -/
def Covered (rs rk : Reply) : Prop :=
  ∃ s w nodes, readStatus rs = .ok s ∧ readWorkers rk = .ok w ∧ s.nodes = some nodes ∧
    ∀ n ∈ nodes, n.isStorage = true → ∀ name ∈ tableSyncWorkers, Lists w n.id name

/-- The counters are all there and not degraded, the status lists nodes, and every storage node
lists every table-sync worker, all of them idle. -/
def Informed (rh rs rk : Reply) : Prop :=
  ∃ h s w nodes, readHealth rh = .ok h ∧ readStatus rs = .ok s ∧ readWorkers rk = .ok w ∧
    (∃ hc : h.complete = true, Undegraded ⟨h, hc⟩) ∧ s.nodes = some nodes ∧
    ∀ n ∈ nodes, n.isStorage = true → ∀ name ∈ tableSyncWorkers, Lists w n.id name ∧ AllIdle w n.id name

theorem guardVerdict_eq_none_iff_no_reason {name : String} {rh rs rk : Reply} :
    guardVerdict name (readHealth rh) (readStatus rs) (readWorkers rk) = none ↔ ¬ShowReason rh rs rk := by
  rw [guardVerdict_eq_none]
  unfold ShowReason
  cases hh : readHealth rh with
  | error e => simp
  | ok h =>
    cases hs : readStatus rs with
    | error e => simp
    | ok s =>
      cases hk : readWorkers rk with
      | error e => simp
      | ok w =>
        have hsafe : Safe h s w ↔ ¬((h.complete = false ∨ ∃ hc, ¬Undegraded ⟨h, hc⟩) ∨
            ∃ n ∈ s.nodes.getD [], n.isStorage = true ∧ (Unanswered w n.id ∨ Syncing w n.id)) := by
          unfold Safe
          by_cases hc : h.complete = true
          · simp [hc, nodeQuiet_iff]
          · simp [hc]
        simpa using hsafe

theorem informed_iff_covered {rh rs rk : Reply} (hno : ¬ShowReason rh rs rk) :
    Informed rh rs rk ↔ Covered rs rk := by
  have hpermitted : guardVerdict "" (readHealth rh) (readStatus rs) (readWorkers rk) = none :=
    guardVerdict_eq_none_iff_no_reason.mpr hno
  obtain ⟨h, s, w, hh, hs, hk, hc, hundegraded, hquiet⟩ := guardVerdict_eq_none.mp hpermitted
  constructor
  · rintro ⟨h', s', w', nodes, -, hs', hk', -, hnodes, hall⟩
    exact ⟨s', w', nodes, hs', hk', hnodes, fun n hn hst name hname => (hall n hn hst name hname).1⟩
  · rintro ⟨s', w', nodes, hs', hk', hnodes, hlists⟩
    rw [hs] at hs'
    obtain rfl := Except.ok.inj hs'
    rw [hk] at hk'
    obtain rfl := Except.ok.inj hk'
    refine ⟨h, s, w, nodes, hh, hs, hk, ⟨hc, hundegraded⟩, hnodes, ?_⟩
    intro n hn hst name hname
    have hmem : n ∈ s.nodes.getD [] := by rw [hnodes]; exact hn
    exact ⟨hlists n hn hst name hname, (hquiet n hmem hst).allIdle hname⟩

/-! ## The guard -/

/-- A run of the guard that permits the launch has seen complete information. -/
def FailsClosed (log : GarageLog RepairCall) (out : Option Response) : Prop :=
  out = none → ∃ rh rs rk, log = [⟨.getClusterHealth, rh⟩, ⟨.getClusterStatus, rs⟩, ⟨.listWorkers, rk⟩] ∧
    Informed rh rs rk

/-- **When the guard fails closed.** A run for a destructive repair has put its three questions, and
it permits the launch on complete information only, exactly when the answers show a reason to refuse
or leave out neither the node list nor any storage node's table-sync worker. -/
theorem guard_fails_closed_iff {body : Bytes} {log : GarageLog RepairCall} {out : Option Response}
    (hname : (decodeRepairType body).name ∈ destructiveRepairs)
    (hrun : Runs (guardDestructiveRepair body) log out) :
    ∃ rh rs rk, log = [⟨.getClusterHealth, rh⟩, ⟨.getClusterStatus, rs⟩, ⟨.listWorkers, rk⟩] ∧
      (FailsClosed log out ↔ ShowReason rh rs rk ∨ Covered rs rk) := by
  rw [guardDestructiveRepair_runs, if_pos hname] at hrun
  obtain ⟨rh, rs, rk, rfl, rfl⟩ := hrun
  refine ⟨rh, rs, rk, rfl, ?_⟩
  unfold FailsClosed
  rw [guardVerdict_eq_none_iff_no_reason]
  constructor
  · intro hclosed
    by_cases hreason : ShowReason rh rs rk
    · exact .inl hreason
    · obtain ⟨rh', rs', rk', hlog, hinformed⟩ := hclosed hreason
      cases hlog
      exact .inr ((informed_iff_covered hreason).mp hinformed)
  · rintro (hreason | hcovered) hno
    · exact absurd hreason hno
    · exact ⟨rh, rs, rk, rfl, (informed_iff_covered hno).mpr hcovered⟩

/-! ## A status without its node list -/

def blockRefsBody : Bytes := bytes "\x7b\"repairType\":\"blockRefs\"\x7d"

def healthyReply : Reply := .answered 200 "application/json" (some (bytes
  "\x7b\"storageNodes\":3,\"storageNodesUp\":3,\"partitions\":256,\"partitionsAllOk\":256\x7d"))

def statusWithoutNodes : Reply := .answered 200 "application/json" (some (bytes "\x7b\"layoutVersion\":5\x7d"))

def noWorkers : Reply := .answered 200 "application/json" (some (bytes
  "\x7b\"success\":\x7b\x7d,\"error\":\x7b\x7d\x7d"))

def logWithoutNodes : GarageLog RepairCall :=
  [⟨.getClusterHealth, healthyReply⟩, ⟨.getClusterStatus, statusWithoutNodes⟩, ⟨.listWorkers, noWorkers⟩]

theorem permitted_without_nodes : Runs (guardDestructiveRepair blockRefsBody) logWithoutNodes none := by
  have hname : (decodeRepairType blockRefsBody).name ∈ destructiveRepairs := by decide +kernel
  rw [guardDestructiveRepair_runs, if_pos hname]
  refine ⟨healthyReply, statusWithoutNodes, noWorkers, rfl, ?_⟩
  decide +kernel

theorem guard_fails_closed_blockRefs :
    ∃ rh rs rk, logWithoutNodes = [⟨.getClusterHealth, rh⟩, ⟨.getClusterStatus, rs⟩, ⟨.listWorkers, rk⟩] ∧
      (FailsClosed logWithoutNodes none ↔ ShowReason rh rs rk ∨ Covered rs rk) :=
  guard_fails_closed_iff (by decide +kernel) permitted_without_nodes

theorem readStatus_without_nodes : readStatus statusWithoutNodes = .ok {} := by
  rw [readStatus, readReply_ok_iff]
  refine ⟨200, "application/json", _, rfl, by omega, by omega, ?_⟩
  decide +kernel

/-- A destructive launch is permitted on a status answer that carries no node list. -/
theorem guard_fails_open :
    (decodeRepairType blockRefsBody).name ∈ destructiveRepairs ∧
      Runs (guardDestructiveRepair blockRefsBody) logWithoutNodes none ∧ ¬FailsClosed logWithoutNodes none := by
  refine ⟨by decide +kernel, permitted_without_nodes, ?_⟩
  intro hclosed
  obtain ⟨rh, rs, rk, hlog, h, s, w, nodes, -, hs, -, -, hnodes, -⟩ := hclosed rfl
  cases hlog
  rw [readStatus_without_nodes] at hs
  obtain rfl := Except.ok.inj hs
  cases hnodes

end GarageConsole.RepairGuard
