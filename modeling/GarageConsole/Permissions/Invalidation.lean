import GarageConsole.Permissions.BucketKeys

/-! # When a permission change drops the cached lists

Garage accepts a call when it answers 2xx; the console takes the call for done when that answer also
decodes. `changed`, on which the cached lists are dropped, follows the second. The two differ exactly on
the first change: a later one finds `changed` already set.
-/

namespace GarageConsole.Permissions

open Foundations Foundations.Text Foundations.GoJson Foundations.Calls GarageConsole.Garage

set_option autoImplicit false

def PermCall.isChange : PermCall → Bool
  | .getBucketInfo _ => false
  | .allowBucketKey _ _ _ => true
  | .denyBucketKey _ _ _ => true

/-- Garage answered 2xx, whatever came of the body. -/
def Accepted : Reply → Prop
  | .unreachable => False
  | .answered status _ _ => 200 ≤ status ∧ status < 300

def AcceptedChange (log : GarageLog PermCall) : Prop :=
  ∃ e ∈ log, e.1.isChange = true ∧ Accepted e.2

def firstChange (log : GarageLog PermCall) : Option (Exchange PermCall fun _ => Reply) :=
  log.find? fun e => e.1.isChange

/-- If Garage accepted the first change that was sent, its answer decodes. -/
def FirstChangeReads (log : GarageLog PermCall) : Prop :=
  ∀ e, firstChange log = some e → Accepted e.2 → ∃ after, readInfo e.1 e.2 = .ok after

theorem firstChange_cons {step : PermCall} (reply : Reply) (rest : GarageLog PermCall) :
    firstChange (⟨step, reply⟩ :: rest) = if step.isChange then some ⟨step, reply⟩ else firstChange rest := by
  rw [firstChange, List.find?_cons]
  split_ifs with h
  · simp [h]
  · simp [h, firstChange]

/-- A step that fails is the last one, so `changed` decides what it leaves. -/
theorem applySteps_of_changed {bucketID keyID : String} {steps : List (PermCall × BucketKeyPerm)} :
    ∀ {result : BucketKeyPerm} {log : GarageLog PermCall} {out : PermsOutcome},
      Runs (applySteps bucketID keyID steps result true) log out → out.invalidated = true := by
  induction steps with
  | nil =>
    intro result log out hrun
    obtain ⟨-, rfl⟩ := runs_ret.mp hrun
    rfl
  | cons s steps ih =>
    intro result log out hrun
    obtain ⟨step, perms⟩ := s
    rw [applySteps] at hrun
    split_ifs at hrun with hskip
    · exact ih hrun
    · obtain ⟨reply, rest, rfl, hrest⟩ := runs_call.mp hrun
      cases hread : readInfo step reply with
      | error e =>
        rw [hread] at hrest
        obtain ⟨-, rfl⟩ := runs_ret.mp hrest
        rfl
      | ok after =>
        rw [hread] at hrest
        exact ih hrest

theorem applySteps_lists_dropped {bucketID keyID : String} {steps : List (PermCall × BucketKeyPerm)}
    (hsteps : ∀ s ∈ steps, s.1.isChange = true) :
    ∀ {result : BucketKeyPerm} {log : GarageLog PermCall} {out : PermsOutcome},
      Runs (applySteps bucketID keyID steps result false) log out →
        ((AcceptedChange log → out.invalidated = true) ↔ FirstChangeReads log) := by
  induction steps with
  | nil =>
    intro result log out hrun
    obtain ⟨rfl, rfl⟩ := runs_ret.mp hrun
    simp [AcceptedChange, FirstChangeReads, firstChange]
  | cons s steps ih =>
    intro result log out hrun
    obtain ⟨hchange, hrest⟩ := List.forall_mem_cons.mp hsteps
    obtain ⟨step, perms⟩ := s
    rw [applySteps] at hrun
    split_ifs at hrun with hskip
    · exact ih hrest hrun
    · obtain ⟨reply, rest, rfl, hgo⟩ := runs_call.mp hrun
      have hfirst : FirstChangeReads (⟨step, reply⟩ :: rest) ↔
          (Accepted reply → ∃ after, readInfo step reply = .ok after) := by
        rw [FirstChangeReads, firstChange_cons, if_pos hchange]
        constructor
        · exact fun h => h _ rfl
        · rintro h e he
          obtain rfl := Option.some.inj he
          exact h
      rw [hfirst]
      cases hread : readInfo step reply with
      | error e =>
        -- the answer gives no value: no step follows and nothing is dropped
        rw [hread] at hgo
        obtain ⟨rfl, rfl⟩ := runs_ret.mp hgo
        simp [AcceptedChange, show step.isChange = true from hchange]
      | ok after =>
        rw [hread] at hgo
        have hdropped := applySteps_of_changed hgo
        exact ⟨fun _ _ => ⟨after, rfl⟩, fun _ _ => hdropped⟩

/-- **When an accepted change drops the cached lists.** On every run, whatever Garage answers: the lists
are dropped if Garage accepted some change, exactly when the first change it was sent is not one that it
accepted with an answer that does not decode. -/
theorem lists_dropped_iff {bucketID keyID : String} {desired : BucketKeyPerm → BucketKeyPerm}
    {log : GarageLog PermCall} {out : PermsOutcome}
    (hrun : Runs (setBucketKeyPermissions bucketID keyID desired) log out) :
    (AcceptedChange log → out.invalidated = true) ↔ FirstChangeReads log := by
  obtain ⟨reply, rest, rfl, hrest⟩ := runs_call.mp hrun
  -- the read of the current flags is no change
  have haccepted : AcceptedChange (⟨.getBucketInfo bucketID, reply⟩ :: rest) ↔ AcceptedChange rest := by
    simp [AcceptedChange, PermCall.isChange]
  have hfirst : FirstChangeReads (⟨.getBucketInfo bucketID, reply⟩ :: rest) ↔ FirstChangeReads rest := by
    rw [FirstChangeReads, firstChange_cons]
    rfl
  rw [haccepted, hfirst]
  cases hread : readInfo (.getBucketInfo bucketID) reply with
  | error e =>
    rw [hread] at hrest
    obtain ⟨rfl, rfl⟩ := runs_ret.mp hrest
    simp [AcceptedChange, FirstChangeReads, firstChange]
  | ok info =>
    rw [hread] at hrest
    refine applySteps_lists_dropped ?_ hrest
    intro s hs
    rw [List.mem_cons, List.mem_singleton] at hs
    rcases hs with rfl | rfl
    · rfl
    · rfl

/-! ## Two runs -/

def okBody (body : String) : Reply := .answered 200 "application/json" (some (bytes body))

theorem readInfo_okBody_object (step : PermCall) : readInfo step (okBody "\x7b\x7d") = .ok {} := by
  have hdec : unmarshal garageBucketKeys {} (bytes "\x7b\x7d") = some {} := by decide +kernel
  exact readReply_ok_iff.mpr ⟨200, _, _, rfl, by decide, by decide, hdec⟩

theorem readInfo_okBody_empty (step : PermCall) :
    readInfo step (okBody "") = .error (.decode (GarageCall.path step)) := by
  have hdec : unmarshal garageBucketKeys {} (bytes "") = none := by decide +kernel
  simp [readInfo, readReply, okBody, hdec]

def grantRead (answer : Reply) : GarageLog PermCall :=
  [⟨.getBucketInfo "b1", okBody "\x7b\x7d"⟩, ⟨.allowBucketKey "b1" "k1" ⟨true, false, false⟩, answer⟩]

theorem accepted_change_keeps_lists :
    Runs (setBucketKeyPermissions "b1" "k1" fun _ => ⟨true, false, false⟩) (grantRead (okBody ""))
        ⟨.error ("/v2/AllowBucketKey", .decode "/v2/AllowBucketKey"), false⟩ ∧
      AcceptedChange (grantRead (okBody "")) := by
  refine ⟨.call ?_, _, List.mem_cons_of_mem _ List.mem_cons_self, rfl, by decide, by decide⟩
  rw [readInfo_okBody_object]
  refine .call ?_
  rw [readInfo_okBody_empty]
  exact .ret _

theorem grantRead_runs : Runs (setBucketKeyPermissions "b1" "k1" fun _ => ⟨true, false, false⟩)
    (grantRead (okBody "\x7b\x7d")) ⟨.ok ⟨"b1", "k1", ⟨false, false, false⟩, true⟩, true⟩ := by
  refine .call ?_
  rw [readInfo_okBody_object]
  refine .call ?_
  rw [readInfo_okBody_object]
  exact .ret _

theorem grant_drops_lists : (AcceptedChange (grantRead (okBody "\x7b\x7d")) → true = true) ↔
    FirstChangeReads (grantRead (okBody "\x7b\x7d")) :=
  lists_dropped_iff grantRead_runs

end GarageConsole.Permissions
