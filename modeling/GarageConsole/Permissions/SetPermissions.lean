import GarageConsole.Permissions.Service

/-! # A change with nobody else at the bucket

`setBucketKeyPermissions` against a bucket that only it changes: on success the key holds exactly the
wanted flags, on failure the old ones or the old and the wanted ones, and no call is sent in vain.
-/

namespace GarageConsole.Permissions

open Foundations Foundations.Calls Foundations.Difference GarageConsole.Garage

set_option autoImplicit false

def isAllow : PermCall → Bool
  | .allowBucketKey _ _ _ => true
  | _ => false

def isDeny : PermCall → Bool
  | .denyBucketKey _ _ _ => true
  | _ => false

/-- The call would leave the flags `held` of the key as they are, or is for another key. -/
def InVain (keyID : String) (held : BucketKeyPerm) : PermCall → Prop
  | .getBucketInfo _ => False
  | .allowBucketKey _ key p => key ≠ keyID ∨ p ≤ held
  | .denyBucketKey _ key p => key ≠ keyID ∨ Disjoint held p

/-- At most one call of each kind, and none in vain. -/
structure FewCalls (keyID : String) (held : BucketKeyPerm) (log : GarageLog PermCall) : Prop where
  allows : log.countP (fun e => isAllow e.1) ≤ 1
  denies : log.countP (fun e => isDeny e.1) ≤ 1
  needed : ∀ e ∈ log, ¬InVain keyID held e.1

structure ChangeOutcome (keyID : String) (want : BucketKeyPerm) (perms perms' : Perms) (out : PermsOutcome) :
    Prop where
  others : ∀ key, key ≠ keyID → perms' key = perms key
  success : ∀ r, out.result = .ok r → perms' keyID = want ∧ r.permissions = perms' keyID ∧
    (r.changed = true ↔ want ≠ perms keyID)
  failure : ∀ f, out.result = .error f → perms' keyID = perms keyID ∨ perms' keyID = perms keyID ⊔ want

theorem fewCalls_of_sent {bucket id keyID : String} {held want : BucketKeyPerm} {reply : Reply}
    {rest : GarageLog PermCall}
    (h : rest.map Sigma.fst <+: (sent (difference held want)).map (changeCall bucket keyID)) :
    FewCalls keyID held (⟨.getBucketInfo id, reply⟩ :: rest) := by
  have hcount : ∀ kind : PermCall → Bool, kind (.getBucketInfo id) = false →
      (⟨.getBucketInfo id, reply⟩ :: rest).countP (fun e => kind e.1) ≤
        ((difference held want).map (changeCall bucket keyID)).countP kind := by
    intro kind hget
    rw [List.countP_cons_of_neg (by simp [hget])]
    have hsub := (h.sublist.trans ((List.filter_sublist).map _)).countP_le (p := kind)
    rwa [List.countP_map] at hsub
  refine ⟨hcount isAllow rfl, hcount isDeny rfl, ?_⟩
  intro e he
  rcases List.mem_cons.mp he with rfl | he
  · exact not_false
  · have hcall := h.subset (List.mem_map.mpr ⟨e, he, rfl⟩)
    obtain ⟨c, hc, heq⟩ := List.mem_map.mp hcall
    obtain ⟨hmem, hflags⟩ := List.mem_filter.mp hc
    rw [← heq]
    have hne : changeFlags c ≠ ⊥ := by
      intro hbot
      rw [(BucketKeyPerm.any_eq_false_iff _).mpr hbot] at hflags
      cases hflags
    rw [difference, List.mem_cons, List.mem_singleton] at hmem
    rcases hmem with rfl | rfl
    · rintro (hkey | hle)
      · exact hkey rfl
      · exact hne (disjoint_sdiff_self_left.eq_bot_of_le hle)
    · rintro (hkey | hdisj)
      · exact hkey rfl
      · exact hne (hdisj.symm.eq_bot_of_le sdiff_le)

theorem sent_difference_eq_nil {held want : BucketKeyPerm} : sent (difference held want) = [] ↔ want = held := by
  have hflags : ∀ p : BucketKeyPerm, ¬p.any = true ↔ p = ⊥ := fun p => by
    rw [Bool.not_eq_true, BucketKeyPerm.any_eq_false_iff]
  rw [sent, List.filter_eq_nil_iff, difference, List.forall_mem_cons, List.forall_mem_singleton, changeFlags,
    changeFlags, hflags, hflags]
  constructor
  · rintro ⟨hadd, hremove⟩
    exact eq_of_no_difference hadd hremove
  · rintro rfl
    exact ⟨sdiff_self, sdiff_self⟩

theorem setBucketKeyPermissions_served {bucket id keyID : String} {desired : BucketKeyPerm → BucketKeyPerm}
    {log : GarageLog PermCall} {out : PermsOutcome} {perms perms' : Perms} (hbucket : bucket ≠ "")
    (hrun : Runs (setBucketKeyPermissions id keyID desired) log out)
    (hserved : Served (garageBucket bucket) perms log perms') :
    FewCalls keyID (perms keyID) log ∧ ChangeOutcome keyID (desired (perms keyID)) perms perms' out := by
  obtain ⟨reply, rest, rfl, hrest⟩ := setBucketKeyPermissions_runs.mp hrun
  obtain ⟨mid, hcall, hserved⟩ := served_cons.mp hserved
  cases hread : readInfo (.getBucketInfo id) reply with
  | error e =>
    -- nothing was read, nothing is changed
    rw [hread] at hrest
    obtain ⟨rfl, rfl⟩ := hrest
    obtain rfl := served_nil.mp hserved
    rw [garageBucket_error hcall hread]
    have hnone : ([] : GarageLog PermCall).map Sigma.fst <+:
        (sent (difference (perms keyID) ⊥)).map (changeCall bucket keyID) := List.nil_prefix
    exact ⟨fewCalls_of_sent hnone, fun _ _ => rfl, nofun, fun _ _ => .inl rfl⟩
  | ok info =>
    rw [hread] at hrest
    obtain ⟨heffect, hid, hshows⟩ := garageBucket_ok hcall hread
    cases heffect
    have hname : bucketIDOf id info = bucket := by rw [bucketIDOf, hid, if_neg hbucket]
    dsimp only at hrest
    rw [hname, hshows keyID] at hrest
    refine ⟨fewCalls_of_sent (applySteps_calls hrest).1, ?_⟩
    obtain ⟨done, hperms, hout⟩ := applySteps_served hrest hserved rfl
    have hkey : perms' keyID = applyAll (perms keyID) done := by rw [hperms, Function.update_self]
    refine ⟨fun key hne => by rw [hperms, Function.update_of_ne hne], ?_, ?_⟩
    · intro r hres
      rw [hres] at hout
      obtain ⟨rfl, rfl⟩ := hout
      rw [applyAll_difference] at hkey
      exact ⟨hkey, rfl, by simp [sent_difference_eq_nil]⟩
    · intro f hres
      rw [hres] at hout
      obtain ⟨c, tail, hsplit⟩ := hout
      rw [hkey]
      cases done with
      | nil => exact .inl rfl
      | cons first done =>
        -- only the call that clears flags comes after another one
        rw [difference, List.cons_append] at hsplit
        obtain ⟨rfl, hsplit⟩ := List.cons.inj hsplit
        cases done with
        | nil => exact .inr (sup_sdiff_self_right _ _)
        | cons second done =>
          have := congrArg List.length hsplit
          simp at this

theorem handleGrantConsoleAccess_runs {consoleKeyID id : String} {incoming : Incoming} {log : GarageLog PermCall}
    {response : Response} (hrun : Runs (handleGrantConsoleAccess consoleKeyID id incoming) log response) :
    (log = [] ∧ response.status ≠ 200) ∨
      ∃ out, Runs (setBucketKeyPermissions id consoleKeyID consoleAccess) log out ∧ response = out.respond := by
  have hrefused : ∀ {status : ℕ} {msg : String}, status ≠ 200 →
      Runs (.ret (writeJSONError status msg) : GarageProg PermCall Response) log response →
        log = [] ∧ response.status ≠ 200 := by
    intro status msg hne h
    obtain ⟨hlog, rfl⟩ := runs_ret.mp h
    exact ⟨hlog, hne⟩
  unfold handleGrantConsoleAccess at hrun
  split_ifs at hrun
  · exact .inl (hrefused (by decide) hrun)
  · cases hread : readLimited (maxConsoleAccessBodyBytes + 1) incoming with
    | none =>
      rw [hread] at hrun
      exact .inl (hrefused (by decide) hrun)
    | some raw =>
      rw [hread] at hrun
      dsimp only at hrun
      split_ifs at hrun
      · exact .inl (hrefused (by decide) hrun)
      · obtain ⟨l, out, r, rfl, hset, hret⟩ := runs_bind.mp hrun
        obtain ⟨rfl, rfl⟩ := runs_ret.mp hret
        rw [List.append_nil]
        exact .inr ⟨out, hset, rfl⟩

/-- **A change sets what was wanted, and fails gracefully.** With nobody else at the bucket: on success
the key's flags are the wanted ones, the response shows them and says whether they changed; on failure
they are the old ones or the old and the wanted ones; other keys keep theirs; at most one Allow and one
Deny call are sent, none in vain. The console-access route ends with read and write set and leaves
owner as it is. -/
theorem permissions_set :
    (∀ {bucket id keyID : String} {desired : BucketKeyPerm → BucketKeyPerm} {log : GarageLog PermCall}
        {out : PermsOutcome} {perms perms' : Perms}, bucket ≠ "" →
      Runs (setBucketKeyPermissions id keyID desired) log out →
      Served (garageBucket bucket) perms log perms' →
        FewCalls keyID (perms keyID) log ∧ ChangeOutcome keyID (desired (perms keyID)) perms perms' out) ∧
    (∀ {bucket id consoleKeyID : String} {incoming : Incoming} {log : GarageLog PermCall}
        {response : Response} {perms perms' : Perms}, bucket ≠ "" →
      Runs (handleGrantConsoleAccess consoleKeyID id incoming) log response →
      Served (garageBucket bucket) perms log perms' →
        (response.status = 200 → (perms' consoleKeyID).read = true ∧ (perms' consoleKeyID).write = true) ∧
          (perms' consoleKeyID).owner = (perms consoleKeyID).owner) := by
  refine ⟨setBucketKeyPermissions_served, ?_⟩
  intro bucket id consoleKeyID incoming log response perms perms' hbucket hrun hserved
  rcases handleGrantConsoleAccess_runs hrun with ⟨rfl, hstatus⟩ | ⟨out, hset, rfl⟩
  · obtain rfl := served_nil.mp hserved
    exact ⟨fun h => absurd h hstatus, rfl⟩
  · obtain ⟨-, hchange⟩ := setBucketKeyPermissions_served hbucket hset hserved
    refine ⟨fun hok => ?_, ?_⟩
    · obtain ⟨r, hres⟩ := (respond_status_iff hset).mp hok
      obtain ⟨hwant, -⟩ := hchange.success r hres
      rw [hwant]
      exact ⟨rfl, rfl⟩
    · cases hres : out.result with
      | ok r =>
        rw [(hchange.success r hres).1]
        rfl
      | error f =>
        rcases hchange.failure f hres with heq | heq
        · rw [heq]
        · -- adding the flags it has adds no owner
          rw [heq]
          exact Bool.or_self _

/-! ## Two runs -/

def readToWrite : GarageLog PermCall :=
  [⟨.getBucketInfo "b1", shown ⟨true, false, false⟩⟩,
    ⟨.allowBucketKey "b1" "k1" ⟨false, true, false⟩, shown ⟨true, true, false⟩⟩,
    ⟨.denyBucketKey "b1" "k1" ⟨true, false, false⟩, shown ⟨false, true, false⟩⟩]

theorem readToWrite_runs : Runs (setBucketKeyPermissions "b1" "k1" fun _ => ⟨false, true, false⟩) readToWrite
    ⟨.ok ⟨"b1", "k1", ⟨false, true, false⟩, true⟩, true⟩ := by
  refine .call ?_
  rw [readInfo_shown]
  refine .call ?_
  rw [readInfo_shown]
  refine .call ?_
  rw [readInfo_shown]
  exact .ret _

theorem readToWrite_served :
    Served (garageBucket "b1") (oneKey ⟨true, false, false⟩) readToWrite (oneKey ⟨false, true, false⟩) :=
  .cons (oneKey_read _ _) (.cons (oneKey_change _ (.add ⟨false, true, false⟩))
    (.cons (oneKey_change _ (.remove ⟨true, false, false⟩)) (.nil _)))

def grantToOwner : GarageLog PermCall :=
  [⟨.getBucketInfo "b1", shown ⟨false, false, true⟩⟩,
    ⟨.allowBucketKey "b1" "k1" ⟨true, true, false⟩, shown ⟨true, true, true⟩⟩]

theorem grantToOwner_runs : Runs (handleGrantConsoleAccess "k1" "b1" (.complete [])) grantToOwner
    ⟨200, .json (BucketKeyPermsResponse.toJson ⟨"b1", "k1", ⟨true, true, true⟩, true⟩)⟩ := by
  have hset : Runs (setBucketKeyPermissions "b1" "k1" consoleAccess) grantToOwner
      ⟨.ok ⟨"b1", "k1", ⟨true, true, true⟩, true⟩, true⟩ := by
    refine .call ?_
    rw [readInfo_shown]
    refine .call ?_
    rw [readInfo_shown]
    exact .ret _
  exact runs_bind.mpr ⟨grantToOwner, _, [], rfl, hset, .ret _⟩

theorem grantToOwner_served :
    Served (garageBucket "b1") (oneKey ⟨false, false, true⟩) grantToOwner (oneKey ⟨true, true, true⟩) :=
  .cons (oneKey_read _ _) (.cons (oneKey_change _ (.add ⟨true, true, false⟩)) (.nil _))

theorem permissions_set_runs :
    (FewCalls "k1" (oneKey ⟨true, false, false⟩ "k1") readToWrite ∧
      ChangeOutcome "k1" ⟨false, true, false⟩ (oneKey ⟨true, false, false⟩) (oneKey ⟨false, true, false⟩)
        ⟨.ok ⟨"b1", "k1", ⟨false, true, false⟩, true⟩, true⟩) ∧
    (oneKey ⟨true, true, true⟩ "k1").read = true ∧ (oneKey ⟨true, true, true⟩ "k1").write = true := by
  refine ⟨permissions_set.1 (by decide) readToWrite_runs readToWrite_served, ?_⟩
  exact (permissions_set.2 (by decide) grantToOwner_runs grantToOwner_served).1 rfl

end GarageConsole.Permissions
