import GarageConsole.Permissions.Service

/-! # Two changes of one key side by side

Nothing keeps two requests for the same key apart: each reads the flags, and sends what it computed
from them whatever the other has done meanwhile. The calls of both are interleaved in any way against
one bucket. The key then ends with flags between those that both want and those that either wants
(`concurrent_edits_bounded`), which need not be the flags that one of them wants.
-/

namespace GarageConsole.Permissions

open Foundations Foundations.Calls Foundations.Difference GarageConsole.Garage

set_option autoImplicit false

/-! ## The changes in a log -/

/-- The change an exchange made to the key, if it was accepted. -/
def acceptedChange (keyID : String) : Exchange PermCall (fun _ => Reply) → Option (Change BucketKeyPerm)
  | ⟨.getBucketInfo _, _⟩ => none
  | ⟨.allowBucketKey bucket key p, reply⟩ =>
    if key = keyID ∧ (readInfo (.allowBucketKey bucket key p) reply).toOption.isSome then some (.add p) else none
  | ⟨.denyBucketKey bucket key p, reply⟩ =>
    if key = keyID ∧ (readInfo (.denyBucketKey bucket key p) reply).toOption.isSome then some (.remove p) else none

def acceptedChanges (keyID : String) (log : GarageLog PermCall) : List (Change BucketKeyPerm) :=
  log.filterMap (acceptedChange keyID)

theorem acceptedChange_changeCall {bucket keyID : String} {c : Change BucketKeyPerm} {reply : Reply}
    {info : GarageBucketKeys} (h : readInfo (changeCall bucket keyID c) reply = .ok info) :
    acceptedChange keyID ⟨changeCall bucket keyID c, reply⟩ = some c := by
  cases c with
  | add p =>
    rw [changeCall] at h
    simp [changeCall, acceptedChange, h, Except.toOption]
  | remove p =>
    rw [changeCall] at h
    simp [changeCall, acceptedChange, h, Except.toOption]

theorem garageBucket_change {bucket keyID : String} {perms perms' : Perms} {r : PermCall} {reply : Reply}
    (h : garageBucket bucket perms r reply perms') :
    perms' keyID = applyAll (perms keyID) (acceptedChange keyID ⟨r, reply⟩).toList := by
  rcases h with ⟨info, hread, heffect, -⟩ | ⟨⟨e, hread⟩, rfl⟩
  · cases heffect with
    | read id => rfl
    | allow key p =>
      by_cases hkey : key = keyID
      · subst hkey
        simp [acceptedChange, hread, Except.toOption, Change.apply]
      · rw [Function.update_of_ne (Ne.symm hkey)]
        simp [acceptedChange, hkey]
    | deny key p =>
      by_cases hkey : key = keyID
      · subst hkey
        simp [acceptedChange, hread, Except.toOption, Change.apply]
      · rw [Function.update_of_ne (Ne.symm hkey)]
        simp [acceptedChange, hkey]
  · cases r <;> simp [acceptedChange, hread, Except.toOption]

theorem served_changes {bucket keyID : String} {log : GarageLog PermCall} {perms perms' : Perms}
    (h : Served (garageBucket bucket) perms log perms') :
    perms' keyID = applyAll (perms keyID) (acceptedChanges keyID log) := by
  induction log generalizing perms with
  | nil =>
    obtain rfl := served_nil.mp h
    rfl
  | cons e log ih =>
    obtain ⟨r, reply⟩ := e
    obtain ⟨mid, hcall, hrest⟩ := served_cons.mp h
    have hsplit : acceptedChanges keyID (⟨r, reply⟩ :: log) =
        (acceptedChange keyID ⟨r, reply⟩).toList ++ acceptedChanges keyID log := by
      rw [acceptedChanges, List.filterMap_cons]
      cases acceptedChange keyID ⟨r, reply⟩ <;> rfl
    rw [hsplit, applyAll_append, ← garageBucket_change hcall]
    exact ih hrest

theorem acceptedChanges_of_calls {bucket keyID : String} {cs : List (Change BucketKeyPerm)}
    {log : GarageLog PermCall} (hcalls : log.map Sigma.fst = cs.map (changeCall bucket keyID))
    (hok : ∀ e ∈ log, ∃ info, readInfo e.1 e.2 = .ok info) : acceptedChanges keyID log = cs := by
  induction log generalizing cs with
  | nil =>
    obtain rfl : cs = [] := by simpa using hcalls.symm
    rfl
  | cons e log ih =>
    cases cs with
    | nil => cases hcalls
    | cons c cs =>
      obtain ⟨r, reply⟩ := e
      obtain ⟨rfl, htail⟩ := List.cons.inj hcalls
      obtain ⟨info, hread⟩ := hok _ List.mem_cons_self
      rw [acceptedChanges, List.filterMap_cons, acceptedChange_changeCall hread]
      exact congrArg _ (ih htail fun e he => hok e (List.mem_cons_of_mem _ he))

/-! ## A request that succeeds -/

/-- The calls of a request that succeeded: a read that showed `held`, and the difference to what it
wants. -/
structure Edits (keyID : String) (want : BucketKeyPerm) (log : GarageLog PermCall) where
  id : String
  reply : Reply
  info : GarageBucketKeys
  rest : GarageLog PermCall
  split : log = ⟨.getBucketInfo id, reply⟩ :: rest
  read : readInfo (.getBucketInfo id) reply = .ok info
  changes : acceptedChanges keyID rest = sent (difference (info.permsOf keyID) want)

theorem Edits.acceptedChanges_eq {keyID : String} {want : BucketKeyPerm} {log : GarageLog PermCall}
    (e : Edits keyID want log) : acceptedChanges keyID log = sent (difference (e.info.permsOf keyID) want) := by
  have hread : acceptedChanges keyID (⟨.getBucketInfo e.id, e.reply⟩ :: e.rest) = acceptedChanges keyID e.rest := rfl
  calc acceptedChanges keyID log
      _ = acceptedChanges keyID e.rest := (congrArg _ e.split).trans hread
      _ = sent (difference (e.info.permsOf keyID) want) := e.changes

/-- The calls of a request for `want` that was answered with 200. -/
def Succeeds (keyID : String) (want : BucketKeyPerm) (log : GarageLog PermCall) : Prop :=
  ∃ id incoming response, decodeDesired incoming = some want ∧
    Runs (handleSetBucketKeyPermissions id keyID incoming) log response ∧ response.status = 200

theorem Succeeds.edits {keyID : String} {want : BucketKeyPerm} {log : GarageLog PermCall}
    (h : Succeeds keyID want log) : Nonempty (Edits keyID want log) := by
  obtain ⟨id, incoming, response, hdec, hrun, hok⟩ := h
  rw [handleSetBucketKeyPermissions, hdec] at hrun
  dsimp only at hrun
  split_ifs at hrun
  · obtain ⟨-, rfl⟩ := runs_ret.mp hrun
    exact absurd hok (by decide)
  · obtain ⟨l, out, r, rfl, hset, hret⟩ := runs_bind.mp hrun
    obtain ⟨rfl, rfl⟩ := runs_ret.mp hret
    obtain ⟨res, hres⟩ := (respond_status_iff hset).mp hok
    obtain ⟨reply, rest, rfl, hrest⟩ := setBucketKeyPermissions_runs.mp hset
    cases hread : readInfo (.getBucketInfo id) reply with
    | error e =>
      rw [hread] at hrest
      obtain ⟨-, rfl⟩ := hrest
      cases hres
    | ok info =>
      rw [hread] at hrest
      obtain ⟨hcalls, hreplies⟩ := (applySteps_calls hrest).2 res hres
      exact ⟨id, reply, info, rest, List.append_nil _, hread, acceptedChanges_of_calls hcalls hreplies⟩

theorem mem_sent_difference {held want : BucketKeyPerm} {c : Change BucketKeyPerm}
    (h : c ∈ sent (difference held want)) : c = .add (want \ held) ∨ c = .remove (held \ want) := by
  have hmem := List.mem_of_mem_filter h
  rwa [difference, List.mem_cons, List.mem_singleton] at hmem

theorem sent_of_ne_bot {held want : BucketKeyPerm} {c : Change BucketKeyPerm} (hmem : c ∈ difference held want)
    (hne : changeFlags c ≠ ⊥) : c ∈ sent (difference held want) := by
  refine List.mem_filter.mpr ⟨hmem, ?_⟩
  by_contra hany
  exact hne ((BucketKeyPerm.any_eq_false_iff _).mp (by simpa using hany))

/-! ## Two requests -/

/-- The end of an interleaving, from the side of one of the two requests. -/
theorem edits_bounded {bucket keyID : String} {want other : BucketKeyPerm} {l r m : GarageLog PermCall}
    {perms perms' : Perms} (e : Edits keyID want l) (f : Edits keyID other r) (hm : Shuffle l r m)
    (hserved : Served (garageBucket bucket) perms m perms') :
    want ⊓ other ≤ perms' keyID ∧ perms' keyID ≤ want ⊔ other := by
  have hl : Shuffle (⟨.getBucketInfo e.id, e.reply⟩ :: e.rest) r m := e.split ▸ hm
  obtain ⟨before, after, rest, rfl, hr, hshuffle⟩ := hl.split_left
  obtain ⟨mid, -, hserved⟩ := served_append.mp hserved
  obtain ⟨mid', hget, hafter⟩ := served_cons.mp hserved
  obtain ⟨heffect, -, hshows⟩ := garageBucket_ok hget e.read
  -- what the request read is what the key held when it read it
  cases heffect
  have hend : perms' keyID = applyAll (e.info.permsOf keyID) (acceptedChanges keyID after) := by
    rw [hshows keyID]
    exact served_changes hafter
  have hmine : ∀ c, c ∈ sent (difference (e.info.permsOf keyID) want) → c ∈ acceptedChanges keyID after := by
    intro c hc
    rw [← e.changes] at hc
    obtain ⟨x, hx, hc⟩ := List.mem_filterMap.mp hc
    exact List.mem_filterMap.mpr ⟨x, hshuffle.mem_iff.mpr (.inl hx), hc⟩
  have hall : ∀ c ∈ acceptedChanges keyID after,
      c ∈ sent (difference (e.info.permsOf keyID) want) ∨ c ∈ sent (difference (f.info.permsOf keyID) other) := by
    intro c hc
    obtain ⟨x, hx, hc⟩ := List.mem_filterMap.mp hc
    rcases hshuffle.mem_iff.mp hx with hx | hx
    · rw [← e.changes]
      exact .inl (List.mem_filterMap.mpr ⟨x, hx, hc⟩)
    · rw [← f.acceptedChanges_eq, hr]
      exact .inr (List.mem_filterMap.mpr ⟨x, List.mem_append_right _ hx, hc⟩)
  rw [hend]
  refine settle ?_ ?_ ?_ ?_
  · exact fun hne => hmine _ (sent_of_ne_bot List.mem_cons_self hne)
  · exact fun hne => hmine _ (sent_of_ne_bot (List.mem_cons_of_mem _ (List.mem_singleton_self _)) hne)
  · intro a ha
    rcases hall _ ha with h | h
    · rcases mem_sent_difference h with h | h
      · cases h
        exact sdiff_le.trans le_sup_left
      · cases h
    · rcases mem_sent_difference h with h | h
      · cases h
        exact sdiff_le.trans le_sup_right
      · cases h
  · intro a ha
    rcases hall _ ha with h | h
    · rcases mem_sent_difference h with h | h
      · cases h
      · cases h
        exact disjoint_sdiff_self_right.mono_left inf_le_left
    · rcases mem_sent_difference h with h | h
      · cases h
      · cases h
        exact disjoint_sdiff_self_right.mono_left inf_le_right

theorem edits_last {bucket keyID : String} {want : BucketKeyPerm} {l m : GarageLog PermCall}
    {perms perms' : Perms} (e : Edits keyID want l) (hserved : Served (garageBucket bucket) perms (m ++ l) perms') :
    perms' keyID = want := by
  obtain ⟨mid, -, hserved⟩ := served_append.mp hserved
  rw [e.split] at hserved
  obtain ⟨mid', hget, hafter⟩ := served_cons.mp hserved
  obtain ⟨heffect, -, hshows⟩ := garageBucket_ok hget e.read
  cases heffect
  calc perms' keyID
      _ = applyAll (mid keyID) (sent (difference (e.info.permsOf keyID) want)) := by
        rw [served_changes hafter, e.changes]
      _ = applyAll (e.info.permsOf keyID) (difference (e.info.permsOf keyID) want) := by
        rw [applyAll_sent, ← hshows keyID]
      _ = want := applyAll_difference _ _

/-- Two requests for one key, both answered with 200, whose calls reach the bucket as `m`. -/
structure TwoEdits (bucket keyID : String) (want other : BucketKeyPerm) (l r m : GarageLog PermCall)
    (perms perms' : Perms) : Prop where
  first : Succeeds keyID want l
  second : Succeeds keyID other r
  order : Shuffle l r m
  served : Served (garageBucket bucket) perms m perms'

/-- Each flag ends as one of the two requests wants it; when one request is over before the other begins,
all of them end as the later one wants them. -/
theorem concurrent_edits_bounded {bucket keyID : String} {want other : BucketKeyPerm} {l r m : GarageLog PermCall}
    {perms perms' : Perms} (h : TwoEdits bucket keyID want other l r m perms perms') :
    (want ⊓ other ≤ perms' keyID ∧ perms' keyID ≤ want ⊔ other) ∧
      (m = l ++ r → perms' keyID = other) ∧ (m = r ++ l → perms' keyID = want) := by
  obtain ⟨e⟩ := h.first.edits
  obtain ⟨f⟩ := h.second.edits
  refine ⟨edits_bounded e f h.order h.served, ?_, ?_⟩
  · rintro rfl
    exact edits_last f h.served
  · rintro rfl
    exact edits_last e h.served

/-! ## A mixture -/

theorem succeeds_from_none (body : String) {want after : BucketKeyPerm} (hany : want.any = true)
    (hdec : decodeDesired (.complete (Text.bytes body)) = some want) :
    Succeeds "k1" want [⟨.getBucketInfo "b1", shown ⊥⟩, ⟨.allowBucketKey "b1" "k1" want, shown after⟩] := by
  have hsteps : Runs (applySteps "b1" "k1" (steps "b1" "k1" (difference ⊥ want)) ⊥ false)
      [⟨.allowBucketKey "b1" "k1" want, shown after⟩] ⟨.ok ⟨"b1", "k1", after, true⟩, true⟩ := by
    rw [difference, sdiff_bot, bot_sdiff]
    have hflags : (changeFlags (.add want)).any = true := hany
    refine (applySteps_send_runs hflags).mpr ⟨_, [], rfl, ?_⟩
    rw [readInfo_shown]
    exact .ret _
  have hset : Runs (setBucketKeyPermissions "b1" "k1" fun _ => want)
      [⟨.getBucketInfo "b1", shown ⊥⟩, ⟨.allowBucketKey "b1" "k1" want, shown after⟩]
      ⟨.ok ⟨"b1", "k1", after, true⟩, true⟩ := by
    refine setBucketKeyPermissions_runs.mpr ⟨_, _, rfl, ?_⟩
    rw [readInfo_shown]
    exact hsteps
  refine ⟨"b1", .complete (Text.bytes body),
    PermsOutcome.respond ⟨.ok ⟨"b1", "k1", after, true⟩, true⟩, hdec, ?_, rfl⟩
  rw [handleSetBucketKeyPermissions, hdec]
  dsimp only
  rw [hany, Bool.not_true, if_neg Bool.false_ne_true]
  exact runs_bind.mpr ⟨_, _, [], rfl, hset, .ret _⟩

/-- The key has no flags; one request wants it to read, the other to write. Both look, then both add. -/
theorem twoEdits_mix : TwoEdits "b1" "k1" ⟨true, false, false⟩ ⟨false, true, false⟩
    [⟨.getBucketInfo "b1", shown ⊥⟩, ⟨.allowBucketKey "b1" "k1" ⟨true, false, false⟩, shown ⟨true, false, false⟩⟩]
    [⟨.getBucketInfo "b1", shown ⊥⟩, ⟨.allowBucketKey "b1" "k1" ⟨false, true, false⟩, shown ⟨true, true, false⟩⟩]
    [⟨.getBucketInfo "b1", shown ⊥⟩, ⟨.getBucketInfo "b1", shown ⊥⟩,
      ⟨.allowBucketKey "b1" "k1" ⟨true, false, false⟩, shown ⟨true, false, false⟩⟩,
      ⟨.allowBucketKey "b1" "k1" ⟨false, true, false⟩, shown ⟨true, true, false⟩⟩]
    (oneKey ⊥) (oneKey ⟨true, true, false⟩) where
  first := succeeds_from_none "\x7b\"read\":true\x7d" rfl (by decide +kernel)
  second := succeeds_from_none "\x7b\"write\":true\x7d" rfl (by decide +kernel)
  order := .left (.right (.left (.right .nil)))
  served := .cons (oneKey_read _ _) (.cons (oneKey_read _ _) (.cons (oneKey_change _ (.add ⟨true, false, false⟩))
    (.cons (oneKey_change _ (.add ⟨false, true, false⟩)) (.nil _))))

/-- The key may end with flags that neither request asked for together. -/
theorem edits_mix : ¬∀ (bucket keyID : String) (want other : BucketKeyPerm) (l r m : GarageLog PermCall)
    (perms perms' : Perms), TwoEdits bucket keyID want other l r m perms perms' →
      perms' keyID = want ∨ perms' keyID = other := by
  intro h
  have hend : oneKey ⟨true, true, false⟩ "k1" = ⟨true, true, false⟩ := Function.update_self _ _ _
  rcases h _ _ _ _ _ _ _ _ _ twoEdits_mix with heq | heq
  · rw [hend] at heq
    cases heq
  · rw [hend] at heq
    cases heq

theorem edits_mix_bounded :
    (⟨true, false, false⟩ : BucketKeyPerm) ⊓ ⟨false, true, false⟩ ≤ oneKey ⟨true, true, false⟩ "k1" ∧
      oneKey ⟨true, true, false⟩ "k1" ≤ (⟨true, false, false⟩ : BucketKeyPerm) ⊔ ⟨false, true, false⟩ :=
  (concurrent_edits_bounded twoEdits_mix).1

end GarageConsole.Permissions
