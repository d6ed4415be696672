import Mathlib.Logic.Function.Basic
import GarageConsole.Foundations.Difference
import GarageConsole.Permissions.BucketKeys

/-! # A bucket in Garage, and what a change does to it

The state of a bucket is the flags of every key. `garageBucket` is Garage as a service: a call is
accepted and shows the bucket after it, or fails without effect. `applySteps_served` says what the
calls of one change leave, with nobody else changing the bucket; `applySteps_calls` says which calls
these are, whoever else does.
-/

namespace GarageConsole.Permissions

open Foundations Foundations.Calls Foundations.Difference GarageConsole.Garage

set_option autoImplicit false

/-! ## Garage -/

abbrev Perms := String → BucketKeyPerm

/-- What an accepted call does. -/
inductive Effect (bucket : String) : Perms → PermCall → Perms → Prop where
  | read (perms : Perms) (id : String) : Effect bucket perms (.getBucketInfo id) perms
  | allow (perms : Perms) (keyID : String) (p : BucketKeyPerm) :
      Effect bucket perms (.allowBucketKey bucket keyID p) (Function.update perms keyID (perms keyID ⊔ p))
  | deny (perms : Perms) (keyID : String) (p : BucketKeyPerm) :
      Effect bucket perms (.denyBucketKey bucket keyID p) (Function.update perms keyID (perms keyID \ p))

/-- The answer shows the bucket's ID and the flags of every key. -/
def Shows (bucket : String) (perms : Perms) (info : GarageBucketKeys) : Prop :=
  info.id = bucket ∧ ∀ keyID, info.permsOf keyID = perms keyID

def garageBucket (bucket : String) : Service Perms PermCall fun _ => Reply := fun perms r reply perms' =>
  (∃ info, readInfo r reply = .ok info ∧ Effect bucket perms r perms' ∧ Shows bucket perms' info) ∨
    ((∃ e, readInfo r reply = .error e) ∧ perms' = perms)

theorem garageBucket_ok {bucket : String} {perms perms' : Perms} {r : PermCall} {reply : Reply}
    {info : GarageBucketKeys} (h : garageBucket bucket perms r reply perms') (hread : readInfo r reply = .ok info) :
    Effect bucket perms r perms' ∧ Shows bucket perms' info := by
  rcases h with ⟨info', hread', heffect, hshows⟩ | ⟨⟨e, hread'⟩, -⟩
  · rw [hread] at hread'
    obtain rfl := Except.ok.inj hread'
    exact ⟨heffect, hshows⟩
  · rw [hread] at hread'
    cases hread'

theorem garageBucket_error {bucket : String} {perms perms' : Perms} {r : PermCall} {reply : Reply}
    {e : GarageError} (h : garageBucket bucket perms r reply perms') (hread : readInfo r reply = .error e) :
    perms' = perms := by
  rcases h with ⟨info', hread', -⟩ | ⟨-, heq⟩
  · rw [hread] at hread'
    cases hread'
  · exact heq

/-! ## The steps of a change -/

def changeCall (bucket keyID : String) : Change BucketKeyPerm → PermCall
  | .add p => .allowBucketKey bucket keyID p
  | .remove p => .denyBucketKey bucket keyID p

def changeFlags : Change BucketKeyPerm → BucketKeyPerm
  | .add p => p
  | .remove p => p

def steps (bucket keyID : String) (cs : List (Change BucketKeyPerm)) : List (PermCall × BucketKeyPerm) :=
  cs.map fun c => (changeCall bucket keyID c, changeFlags c)

def sent (cs : List (Change BucketKeyPerm)) : List (Change BucketKeyPerm) := cs.filter fun c => (changeFlags c).any

theorem apply_of_no_flags {c : Change BucketKeyPerm} (h : (changeFlags c).any = false) (s : BucketKeyPerm) :
    c.apply s = s := by
  rw [BucketKeyPerm.any_eq_false_iff] at h
  cases c with
  | add p =>
    obtain rfl : p = ⊥ := h
    exact sup_bot_eq s
  | remove p =>
    obtain rfl : p = ⊥ := h
    exact sdiff_bot

theorem applyAll_sent (s : BucketKeyPerm) (cs : List (Change BucketKeyPerm)) :
    applyAll s (sent cs) = applyAll s cs := by
  induction cs generalizing s with
  | nil => rfl
  | cons c cs ih =>
    cases hflags : (changeFlags c).any with
    | false =>
      have hskip : sent (c :: cs) = sent cs := by simp [sent, hflags]
      rw [hskip, applyAll_cons, apply_of_no_flags hflags]
      exact ih s
    | true =>
      have hsent : sent (c :: cs) = c :: sent cs := by simp [sent, hflags]
      rw [hsent, applyAll_cons, applyAll_cons]
      exact ih _

theorem applySteps_skip {bucket keyID : String} {c : Change BucketKeyPerm} {cs : List (Change BucketKeyPerm)}
    {result : BucketKeyPerm} {changed : Bool} (h : (changeFlags c).any = false) :
    applySteps bucket keyID (steps bucket keyID (c :: cs)) result changed =
      applySteps bucket keyID (steps bucket keyID cs) result changed := by
  rw [steps, List.map_cons, applySteps, h]
  rfl

theorem applySteps_send_runs {bucket keyID : String} {c : Change BucketKeyPerm} {cs : List (Change BucketKeyPerm)}
    {result : BucketKeyPerm} {changed : Bool} {log : GarageLog PermCall} {out : PermsOutcome}
    (h : (changeFlags c).any = true) :
    Runs (applySteps bucket keyID (steps bucket keyID (c :: cs)) result changed) log out ↔
      ∃ reply rest, log = ⟨changeCall bucket keyID c, reply⟩ :: rest ∧
        match readInfo (changeCall bucket keyID c) reply with
        | .error e => rest = [] ∧ out = ⟨.error (GarageCall.path (changeCall bucket keyID c), e), changed⟩
        | .ok after => Runs (applySteps bucket keyID (steps bucket keyID cs) (after.permsOf keyID) true) rest out := by
  rw [steps, List.map_cons, applySteps, h, Bool.not_true, if_neg Bool.false_ne_true, runs_call]
  constructor
  · rintro ⟨reply, rest, rfl, hrest⟩
    refine ⟨reply, rest, rfl, ?_⟩
    cases hread : readInfo (changeCall bucket keyID c) reply with
    | error e =>
      rw [hread] at hrest
      exact runs_ret.mp hrest
    | ok after =>
      rw [hread] at hrest
      exact hrest
  · rintro ⟨reply, rest, rfl, hrest⟩
    refine ⟨reply, rest, rfl, ?_⟩
    cases hread : readInfo (changeCall bucket keyID c) reply with
    | error e =>
      rw [hread] at hrest
      exact runs_ret.mpr hrest
    | ok after =>
      rw [hread] at hrest
      exact hrest

theorem effect_changeCall {bucket keyID : String} {perms perms' : Perms} {c : Change BucketKeyPerm}
    (h : Effect bucket perms (changeCall bucket keyID c) perms') :
    perms' = Function.update perms keyID (c.apply (perms keyID)) := by
  cases c with
  | add p =>
    cases h
    rfl
  | remove p =>
    cases h
    rfl

/-- **What a change leaves.** Nobody else changing the bucket, the calls for `cs` make all of `cs` on
success, and the changes before the failing one on failure; other keys keep their flags. -/
theorem applySteps_served {bucket keyID : String} :
    ∀ {cs : List (Change BucketKeyPerm)} {result : BucketKeyPerm} {changed : Bool} {log : GarageLog PermCall}
      {out : PermsOutcome} {perms perms' : Perms},
      Runs (applySteps bucket keyID (steps bucket keyID cs) result changed) log out →
      Served (garageBucket bucket) perms log perms' → result = perms keyID →
        ∃ done, perms' = Function.update perms keyID (applyAll (perms keyID) done) ∧
          match out.result with
          | .ok r => done = cs ∧ r = ⟨bucket, keyID, perms' keyID, changed || decide (sent cs ≠ [])⟩
          | .error _ => ∃ c rest, cs = done ++ c :: rest
  | [], result, changed, log, out, perms, perms', hrun, hserved, hresult => by
      obtain ⟨rfl, rfl⟩ := runs_ret.mp hrun
      obtain rfl := served_nil.mp hserved
      exact ⟨[], by simp, rfl, by simp [sent, hresult]⟩
  | c :: cs, result, changed, log, out, perms, perms', hrun, hserved, hresult => by
      cases hflags : (changeFlags c).any with
      | false =>
        rw [applySteps_skip hflags] at hrun
        obtain ⟨done, hperms, hout⟩ := applySteps_served hrun hserved hresult
        have hskip : sent (c :: cs) = sent cs := by simp [sent, hflags]
        refine ⟨c :: done, ?_, ?_⟩
        · rw [applyAll_cons, apply_of_no_flags hflags, hperms]
        · rw [hskip]
          cases hres : out.result with
          | ok r =>
            rw [hres] at hout
            exact ⟨by rw [hout.1], hout.2⟩
          | error e =>
            rw [hres] at hout
            obtain ⟨c', rest, rfl⟩ := hout
            exact ⟨c', rest, rfl⟩
      | true =>
        obtain ⟨reply, rest, rfl, hrest⟩ := (applySteps_send_runs hflags).mp hrun
        obtain ⟨mid, hcall, hserved⟩ := served_cons.mp hserved
        have hsent : sent (c :: cs) ≠ [] := by simp [sent, hflags]
        cases hread : readInfo (changeCall bucket keyID c) reply with
        | error e =>
          rw [hread] at hrest
          obtain ⟨rfl, rfl⟩ := hrest
          obtain rfl := served_nil.mp hserved
          refine ⟨[], ?_, c, cs, rfl⟩
          rw [garageBucket_error hcall hread, applyAll_nil, Function.update_eq_self]
        | ok after =>
          rw [hread] at hrest
          obtain ⟨heffect, -, hshows⟩ := garageBucket_ok hcall hread
          have hmid := effect_changeCall heffect
          obtain ⟨done, hperms, hout⟩ := applySteps_served hrest hserved (hshows keyID)
          refine ⟨c :: done, ?_, ?_⟩
          · rw [hperms, hmid, Function.update_idem, Function.update_self, applyAll_cons]
          · cases hres : out.result with
            | ok r =>
              rw [hres] at hout
              refine ⟨by rw [hout.1], ?_⟩
              rw [hout.2]
              simp [hsent]
            | error e =>
              rw [hres] at hout
              obtain ⟨c', rest', rfl⟩ := hout
              exact ⟨c', rest', rfl⟩

/-- **Which calls a change sends.** At most those for the changes with flags, in order; all of them,
each accepted, on success. -/
theorem applySteps_calls {bucket keyID : String} :
    ∀ {cs : List (Change BucketKeyPerm)} {result : BucketKeyPerm} {changed : Bool} {log : GarageLog PermCall}
      {out : PermsOutcome},
      Runs (applySteps bucket keyID (steps bucket keyID cs) result changed) log out →
        log.map Sigma.fst <+: (sent cs).map (changeCall bucket keyID) ∧
          ∀ r, out.result = .ok r → log.map Sigma.fst = (sent cs).map (changeCall bucket keyID) ∧
            ∀ e ∈ log, ∃ info, readInfo e.1 e.2 = .ok info
  | [], result, changed, log, out, hrun => by
      obtain ⟨rfl, rfl⟩ := runs_ret.mp hrun
      simp [sent]
  | c :: cs, result, changed, log, out, hrun => by
      cases hflags : (changeFlags c).any with
      | false =>
        rw [applySteps_skip hflags] at hrun
        have hskip : sent (c :: cs) = sent cs := by simp [sent, hflags]
        rw [hskip]
        exact applySteps_calls hrun
      | true =>
        obtain ⟨reply, rest, rfl, hrest⟩ := (applySteps_send_runs hflags).mp hrun
        have hsent : sent (c :: cs) = c :: sent cs := by simp [sent, hflags]
        rw [hsent, List.map_cons, List.map_cons]
        cases hread : readInfo (changeCall bucket keyID c) reply with
        | error e =>
          rw [hread] at hrest
          obtain ⟨rfl, rfl⟩ := hrest
          simp
        | ok after =>
          rw [hread] at hrest
          obtain ⟨hsent, hok⟩ := applySteps_calls hrest
          refine ⟨List.prefix_cons_inj _ |>.mpr hsent, ?_⟩
          intro r hr
          obtain ⟨hall, hreplies⟩ := hok r hr
          refine ⟨by rw [hall], ?_⟩
          intro e he
          rcases List.mem_cons.mp he with rfl | he
          · exact ⟨after, hread⟩
          · exact hreplies e he

theorem applySteps_error {bucket keyID : String} :
    ∀ {cs : List (Change BucketKeyPerm)} {result : BucketKeyPerm} {changed : Bool} {log : GarageLog PermCall}
      {out : PermsOutcome} {path : String} {e : GarageError},
      Runs (applySteps bucket keyID (steps bucket keyID cs) result changed) log out →
        out.result = .error (path, e) → ∃ r reply, readInfo r reply = .error e
  | [], result, changed, log, out, path, e, hrun, hres => by
      obtain ⟨rfl, rfl⟩ := runs_ret.mp hrun
      cases hres
  | c :: cs, result, changed, log, out, path, e, hrun, hres => by
      cases hflags : (changeFlags c).any with
      | false =>
        rw [applySteps_skip hflags] at hrun
        exact applySteps_error hrun hres
      | true =>
        obtain ⟨reply, rest, rfl, hrest⟩ := (applySteps_send_runs hflags).mp hrun
        cases hread : readInfo (changeCall bucket keyID c) reply with
        | error e' =>
          rw [hread] at hrest
          obtain ⟨-, rfl⟩ := hrest
          cases hres
          exact ⟨_, reply, hread⟩
        | ok after =>
          rw [hread] at hrest
          exact applySteps_error hrest hres

/-! ## The whole change -/

/-- From the flags a key has to the flags it is to have. -/
def difference (current want : BucketKeyPerm) : List (Change BucketKeyPerm) :=
  [.add (want \ current), .remove (current \ want)]

theorem applyAll_difference (current want : BucketKeyPerm) : applyAll current (difference current want) = want :=
  add_remove current want

theorem denyOf_eq (current want : BucketKeyPerm) : denyOf current want = current \ want :=
  BucketKeyPerm.ext (Bool.and_comm _ _) (Bool.and_comm _ _) (Bool.and_comm _ _)

/-- The ID the two calls name: Garage's own when it gives one. -/
def bucketIDOf (id : String) (info : GarageBucketKeys) : String := if info.id = "" then id else info.id

theorem setBucketKeyPermissions_runs {id keyID : String} {desired : BucketKeyPerm → BucketKeyPerm}
    {log : GarageLog PermCall} {out : PermsOutcome} :
    Runs (setBucketKeyPermissions id keyID desired) log out ↔
      ∃ reply rest, log = ⟨.getBucketInfo id, reply⟩ :: rest ∧
        match readInfo (.getBucketInfo id) reply with
        | .error e => rest = [] ∧ out = ⟨.error (GarageCall.path (PermCall.getBucketInfo id), e), false⟩
        | .ok info =>
          Runs (applySteps (bucketIDOf id info) keyID (steps (bucketIDOf id info) keyID
            (difference (info.permsOf keyID) (desired (info.permsOf keyID)))) (info.permsOf keyID) false) rest out := by
  rw [setBucketKeyPermissions, runs_call]
  refine exists_congr fun reply => exists_congr fun rest => and_congr_right fun _ => ?_
  cases readInfo (.getBucketInfo id) reply with
  | error e => exact runs_ret
  | ok info =>
    dsimp only
    rw [denyOf_eq]
    exact Iff.rfl

theorem readInfo_status {r : PermCall} {reply : Reply} {path contentType : String} {status : ℕ}
    {body : Text.Bytes} (h : readInfo r reply = .error (.status path status contentType body)) : status ≠ 200 := by
  cases reply with
  | unreachable => cases h
  | answered status' contentType' body' =>
    cases body' with
    | none => cases h
    | some body' =>
      rw [readInfo, readReply] at h
      split_ifs at h with hstatus
      · cases h
        omega
      · split at h <;> cases h

theorem respond_status_iff {id keyID : String} {desired : BucketKeyPerm → BucketKeyPerm}
    {log : GarageLog PermCall} {out : PermsOutcome} (hrun : Runs (setBucketKeyPermissions id keyID desired) log out) :
    out.respond.status = 200 ↔ ∃ r, out.result = .ok r := by
  cases hres : out.result with
  | ok r => simp [PermsOutcome.respond, hres]
  | error failure =>
    obtain ⟨path, e⟩ := failure
    have hread : ∃ r reply, readInfo r reply = .error e := by
      obtain ⟨reply, rest, rfl, hrest⟩ := setBucketKeyPermissions_runs.mp hrun
      cases hread : readInfo (.getBucketInfo id) reply with
      | error e' =>
        rw [hread] at hrest
        obtain ⟨-, rfl⟩ := hrest
        cases hres
        exact ⟨_, reply, hread⟩
      | ok info =>
        rw [hread] at hrest
        exact applySteps_error hrest hres
    obtain ⟨r, reply, hread⟩ := hread
    have hne : (writeGarageCallError e).status ≠ 200 := by
      cases e with
      | status path' status contentType body => exact readInfo_status hread
      | transport => simp [writeGarageCallError, writeJSONError]
      | unreadable _ => simp [writeGarageCallError, writeJSONError]
      | decode _ => simp [writeGarageCallError, writeJSONError]
    simp [PermsOutcome.respond, hres, hne]

/-! ## A bucket with one key -/

def shown (p : BucketKeyPerm) : Reply :=
  .answered 200 "application/json" (some (Text.bytes ("\x7b\"id\":\"b1\",\"keys\":[\x7b\"accessKeyId\":\"k1\"," ++
    "\"permissions\":\x7b\"read\":" ++ toString p.read ++ ",\"write\":" ++ toString p.write ++ ",\"owner\":" ++
    toString p.owner ++ "\x7d\x7d]\x7d")))

def oneKey (p : BucketKeyPerm) : Perms := Function.update (fun _ => ⊥) "k1" p

theorem readInfo_shown (r : PermCall) (p : BucketKeyPerm) : readInfo r (shown p) = .ok ⟨"b1", some [⟨"k1", p⟩]⟩ := by
  refine readReply_ok_iff.mpr ⟨200, _, _, rfl, by decide, by decide, ?_⟩
  obtain ⟨read, write, owner⟩ := p
  cases read <;> cases write <;> cases owner <;> decide +kernel

theorem shows_oneKey (p : BucketKeyPerm) : Shows "b1" (oneKey p) ⟨"b1", some [⟨"k1", p⟩]⟩ := by
  refine ⟨rfl, fun keyID => ?_⟩
  by_cases hkey : keyID = "k1"
  · subst hkey
    rw [oneKey, Function.update_self]
    rfl
  · rw [oneKey, Function.update_of_ne hkey]
    simp [GarageBucketKeys.permsOf, Ne.symm hkey]
    rfl

theorem oneKey_read (id : String) (p : BucketKeyPerm) :
    garageBucket "b1" (oneKey p) (.getBucketInfo id) (shown p) (oneKey p) :=
  .inl ⟨_, readInfo_shown _ p, .read _ id, shows_oneKey p⟩

theorem oneKey_change (p : BucketKeyPerm) (c : Change BucketKeyPerm) :
    garageBucket "b1" (oneKey p) (changeCall "b1" "k1" c) (shown (c.apply p)) (oneKey (c.apply p)) := by
  refine .inl ⟨_, readInfo_shown _ _, ?_, shows_oneKey _⟩
  have hupdate : oneKey (c.apply p) = Function.update (oneKey p) "k1" (c.apply (oneKey p "k1")) := by
    rw [oneKey, oneKey, Function.update_self, Function.update_idem]
  rw [hupdate]
  cases c with
  | add q => exact .allow _ "k1" q
  | remove q => exact .deny _ "k1" q

end GarageConsole.Permissions
