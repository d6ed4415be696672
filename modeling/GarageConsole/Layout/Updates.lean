import GarageConsole.Foundations.Systems
import GarageConsole.Foundations.Comparators
import GarageConsole.Layout.Roles

/-! # Layout updates

While an update of the layout is under way, several versions of it are live, and each node says how far it is. The page
shows the steps of the update (`update_steps_in_order`), and an operator may force it past nodes that are down. The
version to force can be chosen, and the versions change while it is: what is sent is always one that is acceptable by
what the page knows then (`forced_version_acceptable`).
-/

namespace GarageConsole.Layout

open Foundations Foundations.Systems Foundations.StableSort

set_option autoImplicit false

inductive LayoutVersionStatus where
  | current
  | draining
  | historical
  deriving DecidableEq

structure LayoutVersionInfo where
  version : ℕ
  status : LayoutVersionStatus

/-- The highest version that a node has acknowledged, synced, and seen everyone sync. -/
structure NodeUpdateTrackers where
  ack : ℕ
  sync : ℕ
  syncAck : ℕ

structure LayoutHistory where
  currentVersion : ℕ
  versions : List LayoutVersionInfo
  /-- By node. Only there while more than one version is live. -/
  updateTrackers : Option (List (String × NodeUpdateTrackers))

def isUpdateInFlight (h : Option LayoutHistory) : Bool := (h.bind LayoutHistory.updateTrackers).isSome

structure TrackerRole where
  id : String
  capacity : Option ℕ

/-! ## Steps -/

inductive StepState where
  | completed
  | inprogress
  | waiting
  deriving DecidableEq

structure UpdateStep where
  name : String
  hint : String
  progress : ℕ
  total : ℕ
  state : StepState

/-- How many of the nodes among these have come to the current version, and how many there are. -/
def tally (h : LayoutHistory) (k : NodeUpdateTrackers → ℕ) (among : String → Bool) : ℕ × ℕ :=
  let nodes := (h.updateTrackers.getD []).filter fun node => among node.1
  ((nodes.filter fun node => h.currentVersion ≤ k node.2).length, nodes.length)

/-- A step is only in progress once the one before it is completed. -/
def stateOf (prevDone done : Bool) : StepState :=
  if done then .completed else if prevDone then .inprogress else .waiting

def withStates : Bool → List (String × String × ℕ × ℕ) → List UpdateStep
  | _, [] => []
  | prevDone, (name, hint, progress, total) :: defs =>
    ⟨name, hint, progress, total, stateOf prevDone (progress = total)⟩ :: withStates (progress = total) defs

def storageNode (roles : List TrackerRole) (id : String) : Bool := roles.any fun r => r.capacity.isSome && r.id = id

def currentNode (roles : List TrackerRole) (id : String) : Bool := roles.any fun r => r.id = id

def computeSteps (h : LayoutHistory) (roles : List TrackerRole) : List UpdateStep :=
  withStates true
    [("レイアウトの伝播", "全ノードが新しいバージョンを受け取る (ack)", tally h NodeUpdateTrackers.ack fun _ => true),
     ("メタデータ同期", "ストレージノードが新レイアウトでのメタデータを同期する (sync、gateway は対象外)",
       tally h NodeUpdateTrackers.sync (storageNode roles)),
     ("新レイアウトへ切替", "同期完了を確認し新レイアウトで読み書きする (syncAck、現レイアウトのノード)",
       tally h NodeUpdateTrackers.syncAck (currentNode roles))]

/-- All nodes among these have come to the current version. -/
def Reached (h : LayoutHistory) (k : NodeUpdateTrackers → ℕ) (among : String → Bool) : Prop :=
  ∀ node ∈ h.updateTrackers.getD [], among node.1 = true → h.currentVersion ≤ k node.2

theorem tally_eq {h : LayoutHistory} {k : NodeUpdateTrackers → ℕ} {among : String → Bool} :
    (tally h k among).1 = (tally h k among).2 ↔ Reached h k among := by
  rw [tally, Reached]
  dsimp only
  rw [List.length_filter_eq_length_iff]
  simp only [List.mem_filter, decide_eq_true_eq, and_imp]

theorem stateOf_completed {prevDone done : Bool} : stateOf prevDone done = .completed ↔ done = true := by
  cases prevDone <;> cases done <;> decide

theorem stateOf_inprogress {prevDone done : Bool} {before : StepState} (h : before = .completed ↔ prevDone = true) :
    stateOf prevDone done = .inprogress ↔ stateOf prevDone done ≠ .completed ∧ before = .completed := by
  rw [h]
  cases prevDone <;> cases done <;> decide

theorem stateOf_first (done : Bool) : stateOf true done ≠ .waiting := by cases done <;> decide

/-- **The steps in order.** A step is completed exactly if all nodes that it waits for have come to the current version,
and in progress exactly if it is not and the one before it is; the first one never waits. If no node has seen a sync
complete that is not complete on itself, the nodes have switched over only once the storage nodes have synced. -/
theorem update_steps_in_order (h : LayoutHistory) (roles : List TrackerRole) :
    ∃ propagate sync switch : UpdateStep, computeSteps h roles = [propagate, sync, switch] ∧
      (propagate.state = .completed ↔ Reached h NodeUpdateTrackers.ack fun _ => true) ∧
      (sync.state = .completed ↔ Reached h NodeUpdateTrackers.sync (storageNode roles)) ∧
      (switch.state = .completed ↔ Reached h NodeUpdateTrackers.syncAck (currentNode roles)) ∧
      propagate.state ≠ .waiting ∧
      (sync.state = .inprogress ↔ sync.state ≠ .completed ∧ propagate.state = .completed) ∧
      (switch.state = .inprogress ↔ switch.state ≠ .completed ∧ sync.state = .completed) ∧
      ((∀ node ∈ h.updateTrackers.getD [], node.2.syncAck ≤ node.2.sync) →
        switch.state = .completed → sync.state = .completed) := by
  have hcompleted (prevDone : Bool) (k : NodeUpdateTrackers → ℕ) (among : String → Bool) :
      stateOf prevDone ((tally h k among).1 = (tally h k among).2) = .completed ↔ Reached h k among := by
    rw [stateOf_completed, decide_eq_true_eq, tally_eq]
  have hpropagate := hcompleted true NodeUpdateTrackers.ack fun _ => true
  have hsync (prevDone : Bool) := hcompleted prevDone NodeUpdateTrackers.sync (storageNode roles)
  have hswitch (prevDone : Bool) := hcompleted prevDone NodeUpdateTrackers.syncAck (currentNode roles)
  refine ⟨_, _, _, rfl, hpropagate, hsync _, hswitch _, stateOf_first _, stateOf_inprogress stateOf_completed,
    stateOf_inprogress stateOf_completed, fun hordered hdone => (hsync _).mpr fun node hnode hstorage => ?_⟩
  -- Every storage node has a role, so the switch waits for it too.
  have hcurrent : currentNode roles node.1 = true := by
    obtain ⟨r, hr, hid⟩ := List.any_eq_true.mp hstorage
    exact List.any_eq_true.mpr ⟨r, hr, (Bool.and_eq_true_iff.mp hid).2⟩
  exact ((hswitch _).mp hdone node hnode hcurrent).trans (hordered node hnode)

/-- An update from version 4 to version 6, with 5 in between. -/
def updateToSix : LayoutHistory :=
  ⟨6, [⟨6, .current⟩, ⟨4, .draining⟩, ⟨5, .draining⟩, ⟨3, .historical⟩], some [("n1", ⟨6, 5, 5⟩), ("n2", ⟨4, 4, 4⟩)]⟩

theorem update_steps_in_order_six :
    (∀ node ∈ updateToSix.updateTrackers.getD [], node.2.syncAck ≤ node.2.sync) ∧
    ∃ propagate sync switch : UpdateStep, computeSteps updateToSix [⟨"n1", some 1⟩] = [propagate, sync, switch] ∧
      (switch.state = .completed → sync.state = .completed) := by
  have hordered : ∀ node ∈ updateToSix.updateTrackers.getD [], node.2.syncAck ≤ node.2.sync := by decide
  obtain ⟨propagate, sync, switch, heq, -, -, -, -, -, -, h⟩ := update_steps_in_order updateToSix [⟨"n1", some 1⟩]
  exact ⟨hordered, propagate, sync, switch, heq, h hordered⟩

/-! ## Versions -/

def newestFirst : Comparator LayoutVersionInfo := fun a b => b.version - a.version

def liveVersions (h : LayoutHistory) : List LayoutVersionInfo :=
  newestFirst.sort (h.versions.filter fun v => v.status ≠ .historical)

def skipTargets (h : LayoutHistory) : List ℕ :=
  let live := (liveVersions h).map LayoutVersionInfo.version
  if live.length < 2 then []
  else
    let minStored := live.min?.getD 0
    live.filter fun v => minStored < v && v ≤ h.currentVersion

/-! ## The dialog -/

structure ForceDialog where
  selected : Option ℕ := none
  allowMissingData : Bool := false
  pending : Bool := false
  deriving DecidableEq

/-- A request to force, with what the page knew and what was chosen. -/
structure ForceRequest where
  version : ℕ
  allowMissingData : Bool
  history : LayoutHistory
  selected : Option ℕ

structure UpdateTracker where
  /-- What the last answer said; none while there is none and when the last one failed. -/
  history : Option LayoutHistory := none
  showForce : Bool := false
  dialog : ForceDialog := {}
  /-- Requests under way whose dialogs are gone. -/
  left : ℕ := 0
  /-- Every request that was sent. -/
  sent : List ForceRequest := []

inductive TrackerEvent where
  | answered (h : LayoutHistory)
  | unanswered
  | force
  | select (v : ℕ)
  | allow (checked : Bool)
  | confirmed
  | cancelled
  | done
  | failed
  /-- The request of a dialog that is gone has been answered. -/
  | leftDone
  | leftFailed

namespace UpdateTracker

/-- The page is drawn with its steps and the button. -/
def inFlight (s : UpdateTracker) : Option LayoutHistory := if isUpdateInFlight s.history then s.history else none

/-- The dialog is there. -/
def mounted (s : UpdateTracker) : Bool := s.showForce && s.inFlight.isSome

def targets (s : UpdateTracker) : List ℕ := s.inFlight.elim [] skipTargets

/-- The version that the dialog shows: the one that was chosen while it is there to choose, else the newest. -/
def version (s : UpdateTracker) : Option ℕ :=
  match s.dialog.selected with
  | some v => if s.targets.contains v then some v else s.targets.head?
  | none => s.targets.head?

/-- A dialog that is not drawn any more is gone with what was chosen in it. -/
def settle (s : UpdateTracker) : UpdateTracker :=
  if s.mounted then s else { s with dialog := {}, left := s.left + if s.dialog.pending then 1 else 0 }

/-- What an event does; `none` where the page does not offer it. -/
def step (s : UpdateTracker) : TrackerEvent → Option UpdateTracker
  | .answered h => some (settle { s with history := some h })
  | .unanswered => some (settle { s with history := none })
  | .force =>
    if s.inFlight.isNone || s.showForce || s.targets.isEmpty then none else some { s with showForce := true }
  | .select v =>
    if !s.mounted || s.dialog.pending || !s.targets.contains v then none
    else some { s with dialog.selected := some v }
  | .allow checked =>
    if !s.mounted || s.dialog.pending then none else some { s with dialog.allowMissingData := checked }
  | .confirmed =>
    if !s.mounted || s.dialog.pending then none
    else match s.inFlight, s.version with
      | some h, some v => some
          { s with
            dialog.pending := true
            sent := s.sent ++ [⟨v, s.dialog.allowMissingData, h, s.dialog.selected⟩] }
      | _, _ => none
  | .cancelled =>
    if !s.mounted || s.dialog.pending then none else some (settle { s with showForce := false })
  | .done =>
    if !s.dialog.pending then none else some (settle { s with showForce := false, dialog.pending := false })
  | .failed => if !s.dialog.pending then none else some { s with dialog.pending := false }
  | .leftDone => if s.left = 0 then none else some (settle { s with showForce := false, left := s.left - 1 })
  | .leftFailed => if s.left = 0 then none else some { s with left := s.left - 1 }

end UpdateTracker

def updateTracker : System UpdateTracker TrackerEvent where
  init s := s = {}
  step s event t := s.step event = some t

/-! ## Versions that can be forced -/

def Live (h : LayoutHistory) (v : ℕ) : Prop := ∃ info ∈ h.versions, info.status ≠ .historical ∧ info.version = v

/-- A live version that is newer than the oldest live one, and not after the current one. -/
def Acceptable (h : LayoutHistory) (v : ℕ) : Prop :=
  Live h v ∧ (∃ oldest, Live h oldest ∧ oldest < v) ∧ v ≤ h.currentVersion

theorem mem_liveVersions {h : LayoutHistory} {v : ℕ} :
    v ∈ (liveVersions h).map LayoutVersionInfo.version ↔ Live h v := by
  rw [List.mem_map, Live]
  refine exists_congr fun info => ?_
  rw [liveVersions, Comparator.mem_sort, List.mem_filter, decide_eq_true_eq, and_assoc]

theorem two_of_lt {l : List ℕ} {v w : ℕ} (hv : v ∈ l) (hw : w ∈ l) (h : w < v) : ¬l.length < 2 := by
  intro hlen
  match l, hlen with
  | [], _ => cases hv
  | [u], _ =>
    rw [List.mem_singleton] at hv hw
    omega

theorem mem_skipTargets {h : LayoutHistory} {v : ℕ} : v ∈ skipTargets h ↔ Acceptable h v := by
  rw [skipTargets, Acceptable, ← mem_liveVersions]
  dsimp only
  constructor
  · intro hv
    split_ifs at hv with hlen
    · cases hv
    rw [List.mem_filter, Bool.and_eq_true, decide_eq_true_eq, decide_eq_true_eq] at hv
    obtain ⟨hlive, hold, hcurrent⟩ := hv
    cases hmin : ((liveVersions h).map LayoutVersionInfo.version).min? with
    | none => rw [List.min?_eq_none_iff.mp hmin] at hlive; cases hlive
    | some oldest =>
      rw [hmin, Option.getD_some] at hold
      exact ⟨hlive, ⟨oldest, mem_liveVersions.mp (List.min?_eq_some_iff.mp hmin).1, hold⟩, hcurrent⟩
  · rintro ⟨hlive, ⟨w, hw, hlt⟩, hcurrent⟩
    rw [← mem_liveVersions] at hw
    rw [if_neg (two_of_lt hlive hw hlt), List.mem_filter, Bool.and_eq_true, decide_eq_true_eq, decide_eq_true_eq]
    cases hmin : ((liveVersions h).map LayoutVersionInfo.version).min? with
    | none => rw [List.min?_eq_none_iff.mp hmin] at hlive; cases hlive
    | some oldest => exact ⟨hlive, ((List.min?_eq_some_iff.mp hmin).2 w hw).trans_lt hlt, hcurrent⟩

theorem newestFirst_le_iff {a b : LayoutVersionInfo} : newestFirst a b ≤ 0 ↔ b.version ≤ a.version := by
  rw [newestFirst]
  omega

theorem consistent_newestFirst : newestFirst.Consistent where
  swap a b := by
    rw [newestFirst, newestFirst]
    omega
  trans a b d hab hbd := newestFirst_le_iff.mpr ((newestFirst_le_iff.mp hbd).trans (newestFirst_le_iff.mp hab))

theorem skipTargets_newest_first (h : LayoutHistory) : (skipTargets h).Pairwise fun a b => b ≤ a := by
  have hlive : ((liveVersions h).map LayoutVersionInfo.version).Pairwise fun a b => b ≤ a :=
    List.pairwise_map.mpr ((consistent_newestFirst.pairwise_sort _).imp newestFirst_le_iff.mp)
  rw [skipTargets]
  dsimp only
  split_ifs
  · exact List.Pairwise.nil
  · exact hlive.filter _

/-! ## What is sent -/

/-- The version is acceptable by what the page knew: the one that was chosen, or the newest if that is not to be
chosen any more. -/
structure ForceRequest.Sound (r : ForceRequest) : Prop where
  acceptable : Acceptable r.history r.version
  shown : r.selected = some r.version ∨
    (∀ v, Acceptable r.history v → v ≤ r.version) ∧ ∀ v, r.selected = some v → ¬Acceptable r.history v

theorem head_skipTargets {h : LayoutHistory} {v : ℕ} (hv : (skipTargets h).head? = some v) :
    Acceptable h v ∧ ∀ w, Acceptable h w → w ≤ v := by
  obtain ⟨rest, htargets⟩ := List.head?_eq_some_iff.mp hv
  refine ⟨mem_skipTargets.mp (List.mem_of_head? hv), fun w hw => ?_⟩
  have hsorted := skipTargets_newest_first h
  rw [← mem_skipTargets, htargets] at hw
  rw [htargets, List.pairwise_cons] at hsorted
  obtain rfl | hw := List.mem_cons.mp hw
  · exact le_rfl
  · exact hsorted.1 w hw

theorem UpdateTracker.sound {s : UpdateTracker} {h : LayoutHistory} {v : ℕ} (hflight : s.inFlight = some h)
    (hversion : s.version = some v) (allowMissingData : Bool) :
    ForceRequest.Sound ⟨v, allowMissingData, h, s.dialog.selected⟩ := by
  have htargets : s.targets = skipTargets h := by rw [UpdateTracker.targets, hflight, Option.elim_some]
  rw [UpdateTracker.version, htargets] at hversion
  cases hselected : s.dialog.selected with
  | none =>
    rw [hselected] at hversion
    obtain ⟨hacceptable, hnewest⟩ := head_skipTargets hversion
    exact ⟨hacceptable, .inr ⟨hnewest, fun u hu => by cases hu⟩⟩
  | some u =>
    rw [hselected] at hversion
    dsimp only at hversion
    split_ifs at hversion with hoffered
    · obtain rfl := Option.some.inj hversion
      exact ⟨mem_skipTargets.mp (List.contains_iff_mem.mp hoffered), .inl rfl⟩
    · obtain ⟨hacceptable, hnewest⟩ := head_skipTargets hversion
      refine ⟨hacceptable, .inr ⟨hnewest, ?_⟩⟩
      rintro _ ⟨⟩ hu
      exact hoffered (List.contains_iff_mem.mpr (mem_skipTargets.mpr hu))

structure TrackerInv (s : UpdateTracker) : Prop where
  /-- Nothing is left of a dialog that is gone. -/
  gone : s.mounted = false → s.dialog = {}
  asked : ∀ r ∈ s.sent, r.Sound

theorem TrackerInv.settle {s : UpdateTracker} (hasked : ∀ r ∈ s.sent, r.Sound) : TrackerInv s.settle := by
  rw [UpdateTracker.settle]
  by_cases hmounted : s.mounted = true
  · rw [if_pos hmounted]
    exact ⟨fun hgone => absurd (hgone.symm.trans hmounted) Bool.false_ne_true, hasked⟩
  · rw [if_neg hmounted]
    exact ⟨fun _ => rfl, hasked⟩

theorem TrackerInv.dialog {s : UpdateTracker} (h : TrackerInv s) (hmounted : s.mounted = true) (dialog : ForceDialog) :
    TrackerInv { s with dialog } where
  gone hgone := absurd (hgone.symm.trans hmounted) Bool.false_ne_true
  asked := h.asked

theorem TrackerInv.mounted_of_pending {s : UpdateTracker} (h : TrackerInv s) (hpending : s.dialog.pending = true) :
    s.mounted = true := by
  rw [← Bool.not_eq_false]
  intro hgone
  rw [h.gone hgone] at hpending
  cases hpending

theorem TrackerInv.step {s t : UpdateTracker} {event : TrackerEvent} (h : TrackerInv s)
    (hstep : s.step event = some t) : TrackerInv t := by
  cases event with
  | answered history | unanswered =>
    obtain rfl := Option.some.inj hstep
    exact TrackerInv.settle h.asked
  | force =>
    rw [UpdateTracker.step] at hstep
    split_ifs at hstep with hoffered
    obtain rfl := Option.some.inj hstep
    rw [Bool.or_eq_true, Bool.or_eq_true, not_or, not_or, Bool.not_eq_true, Bool.not_eq_true] at hoffered
    have hclosed : s.mounted = false := by rw [UpdateTracker.mounted, hoffered.1.2, Bool.false_and]
    exact ⟨fun _ => h.gone hclosed, h.asked⟩
  | select v | allow checked =>
    rw [UpdateTracker.step] at hstep
    split_ifs at hstep with hoffered
    obtain rfl := Option.some.inj hstep
    simp only [Bool.or_eq_true, not_or, Bool.not_eq_true', Bool.not_eq_false] at hoffered
    exact h.dialog (by tauto) _
  | confirmed =>
    rw [UpdateTracker.step] at hstep
    split_ifs at hstep with hoffered
    split at hstep
    · rename_i history v hflight hversion
      obtain rfl := Option.some.inj hstep
      simp only [Bool.or_eq_true, not_or, Bool.not_eq_true', Bool.not_eq_false] at hoffered
      exact ⟨fun hgone => absurd (hgone.symm.trans hoffered.1) Bool.false_ne_true,
        List.forall_mem_append.mpr ⟨h.asked, List.forall_mem_singleton.mpr (UpdateTracker.sound hflight hversion _)⟩⟩
    · cases hstep
  | cancelled | done | leftDone =>
    rw [UpdateTracker.step] at hstep
    split_ifs at hstep
    obtain rfl := Option.some.inj hstep
    exact TrackerInv.settle h.asked
  | failed =>
    rw [UpdateTracker.step] at hstep
    split_ifs at hstep with hpending
    obtain rfl := Option.some.inj hstep
    rw [Bool.not_eq_true', Bool.not_eq_false] at hpending
    exact h.dialog (h.mounted_of_pending hpending) _
  | leftFailed =>
    rw [UpdateTracker.step] at hstep
    split_ifs at hstep
    obtain rfl := Option.some.inj hstep
    exact ⟨h.gone, h.asked⟩

/-- **What is forced is acceptable.** However the versions change under the dialog and whatever is chosen, answered and
refused in whatever order: each request is for a live version that is newer than the oldest live one and not after the
current one, by what the page knew then. It is the one that was chosen, or the newest such version if that is none any
more. Each dialog opens with nothing chosen and with no loss of data allowed. -/
theorem forced_version_acceptable {s : UpdateTracker} (h : Reachable updateTracker (fun _ _ => True) s) :
    (s.mounted = false → s.dialog = {}) ∧ ∀ r ∈ s.sent, r.Sound := by
  have hinv : TrackerInv s := by
    refine h.invariant ?_ fun s event t hs _ hstep => hs.step hstep
    rintro _ rfl
    exact ⟨fun _ => rfl, fun r hr => absurd hr List.not_mem_nil⟩
  exact ⟨hinv.gone, hinv.asked⟩

theorem forced_version_acceptable_six : ∃ s : UpdateTracker, s.sent ≠ [] ∧
    (s.mounted = false → s.dialog = {}) ∧ ∀ r ∈ s.sent, r.Sound := by
  have hnewer : 6 ∈ skipTargets updateToSix := mem_skipTargets.mpr
    ⟨⟨⟨6, .current⟩, by simp [updateToSix], by decide, rfl⟩,
      ⟨4, ⟨⟨4, .draining⟩, by simp [updateToSix], by decide, rfl⟩, by decide⟩, by decide⟩
  obtain ⟨v, rest, htargets⟩ := List.exists_cons_of_ne_nil (List.ne_nil_of_mem hnewer)
  let s₁ : UpdateTracker := { history := some updateToSix }
  let s₂ : UpdateTracker := { s₁ with showForce := true }
  have h₁ : UpdateTracker.step {} (.answered updateToSix) = some s₁ := rfl
  have h₂ : s₁.step .force = some s₂ := by
    have hoffered : s₁.targets = v :: rest := htargets
    rw [UpdateTracker.step, hoffered]
    rfl
  have h₃ : ∃ s₃, s₂.step .confirmed = some s₃ ∧ s₃.sent ≠ [] := by
    have hversion : s₂.version = some v := congrArg List.head? htargets
    rw [UpdateTracker.step, hversion]
    exact ⟨_, rfl, List.cons_ne_nil _ _⟩
  obtain ⟨s₃, h₃, hsent⟩ := h₃
  have hstart : Reachable updateTracker (fun _ _ => True) {} := .init rfl
  exact ⟨s₃, hsent, forced_version_acceptable (((hstart.step trivial h₁).step trivial h₂).step trivial h₃)⟩

end GarageConsole.Layout
