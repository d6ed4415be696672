import GarageConsole.Foundations.OrderedSet
import GarageConsole.Foundations.Utf16

/-! # Scopes of admin tokens

A scope lists the endpoints of Garage's admin API that a token may call, or `*` for all of them. It escalates
if it holds `*` or an endpoint that mints or widens tokens. `consolePresetScope` is what the console itself
needs, in the order of the categories, and never escalates.
-/

namespace GarageConsole.Scopes

open Foundations Foundations.Utf16

set_option autoImplicit false

structure AdminScopeCategory where
  label : String
  endpoints : List Units

/-- The special scope value granting every admin endpoint. -/
def allScope : Units := utf16 "*"

def adminScopeCategories : List AdminScopeCategory :=
  [⟨"Cluster",
      ["GetClusterStatus", "GetClusterHealth", "GetClusterStatistics", "ConnectClusterNodes"].map utf16⟩,
    ⟨"Layout",
      ["GetClusterLayout", "GetClusterLayoutHistory", "UpdateClusterLayout", "PreviewClusterLayoutChanges",
        "ApplyClusterLayout", "RevertClusterLayout", "ClusterLayoutSkipDeadNodes"].map utf16⟩,
    ⟨"Buckets",
      ["ListBuckets", "ListBucketsInfo", "GetBucketInfo", "CreateBucket", "UpdateBucket", "DeleteBucket",
        "CleanupIncompleteUploads", "InspectObject", "AddBucketAlias", "RemoveBucketAlias", "AllowBucketKey",
        "DenyBucketKey"].map utf16⟩,
    ⟨"Keys",
      ["ListKeys", "ListKeysInfo", "GetKeyInfo", "CreateKey", "ImportKey", "UpdateKey", "DeleteKey"].map utf16⟩,
    ⟨"Admin tokens",
      ["ListAdminTokens", "GetAdminTokenInfo", "CreateAdminToken", "UpdateAdminToken", "DeleteAdminToken",
        "GetCurrentAdminTokenInfo"].map utf16⟩,
    ⟨"Nodes & maintenance",
      ["GetNodeInfo", "GetNodeStatistics", "CreateMetadataSnapshot", "LaunchRepairOperation"].map utf16⟩,
    ⟨"Blocks", ["ListBlockErrors", "GetBlockInfo", "RetryBlockResync", "PurgeBlocks"].map utf16⟩,
    ⟨"Workers", ["ListWorkers", "GetWorkerInfo", "GetWorkerVariable", "SetWorkerVariable"].map utf16⟩,
    ⟨"Special", ["Metrics"].map utf16⟩]

def allAdminEndpoints : List Units := adminScopeCategories.flatMap AdminScopeCategory.endpoints

/-- Endpoints that let a token mint or widen tokens. -/
def privilegeEscalationEndpoints : List Units := ["CreateAdminToken", "UpdateAdminToken"].map utf16

/-- Endpoints that Garage allows for every valid token. -/
def scopeExemptEndpoints : List Units := ["GetCurrentAdminTokenInfo"].map utf16

def isFullScope (scope : List Units) : Bool := scope.contains allScope

/-- Scope entries that the console does not know. -/
def unknownScopeEntries (scope : List Units) : List Units :=
  scope.filter fun s => !(s == allScope) && !allAdminEndpoints.contains s

def sameScope (a b : List Units) : Bool :=
  if a.length ≠ b.length then false
  else
    let set := OrderedSet.ofList a
    b.all fun s => set.has s

def escalationWarning : Units := utf16 "このスコープは * と同等の権限になります"

structure ScopeEscalation where
  escalates : Bool
  reason : Option Units
  endpoints : List Units

def scopeEscalates (scope : List Units) : ScopeEscalation :=
  if isFullScope scope then
    { escalates := true, reason := some (utf16 "すべてのエンドポイント(*)を許可しています。"), endpoints := [allScope] }
  else
    let endpoints := privilegeEscalationEndpoints.filter fun e => scope.contains e
    if endpoints.length = 0 then { escalates := false, reason := none, endpoints := [] }
    else
      { escalates := true
        reason := some ((utf16 " / ").intercalate endpoints ++
          utf16 " を許可したトークンは、* のトークンを作成したり自分のスコープを広げたりできます。")
        endpoints := endpoints }

def escalationMessage (scope : List Units) : Option Units :=
  (scopeEscalates scope).reason.map fun reason => escalationWarning ++ utf16 "。" ++ reason

/-- Whether the preset takes a name over from the endpoints that the console calls. -/
def presetTakes (e : Units) : Bool :=
  !(e == allScope) && !privilegeEscalationEndpoints.contains e && !scopeExemptEndpoints.contains e

def consolePresetScope (consoleScope : List Units) : List Units :=
  let wanted := OrderedSet.ofList (consoleScope.filter presetTakes)
  let known := allAdminEndpoints.filter fun e => wanted.has e
  let knownSet := OrderedSet.ofList known
  let rest := (wanted.items.filter fun e => !knownSet.has e).mergeSort unitsLE
  known ++ rest

structure ConsoleCoverage where
  covers : Bool
  missing : List Units

def scopeCoversConsole (scope consoleScope : List Units) : ConsoleCoverage :=
  if isFullScope scope then { covers := true, missing := [] }
  else
    let haves := OrderedSet.ofList scope
    let missing := (consolePresetScope consoleScope).filter fun e => !haves.has e
    { covers := missing.length = 0, missing := missing }

/-! ## The lists -/

theorem allAdminEndpoints_nodup : allAdminEndpoints.Nodup := by decide +kernel

theorem allScope_not_mem : allScope ∉ allAdminEndpoints := by decide +kernel

theorem isFullScope_iff {scope : List Units} : isFullScope scope = true ↔ allScope ∈ scope := List.contains_iff_mem

theorem mem_unknownScopeEntries {scope : List Units} {e : Units} :
    e ∈ unknownScopeEntries scope ↔ e ∈ scope ∧ e ≠ allScope ∧ e ∉ allAdminEndpoints := by
  simp [unknownScopeEntries]

theorem presetTakes_iff {e : Units} : presetTakes e = true ↔
    e ≠ allScope ∧ e ∉ privilegeEscalationEndpoints ∧ e ∉ scopeExemptEndpoints := by
  simp [presetTakes, and_assoc]

theorem escalates_iff {scope : List Units} : (scopeEscalates scope).escalates = true ↔
    allScope ∈ scope ∨ ∃ e ∈ privilegeEscalationEndpoints, e ∈ scope := by
  unfold scopeEscalates
  by_cases hfull : isFullScope scope = true
  · rw [if_pos hfull]
    exact ⟨fun _ => .inl (isFullScope_iff.mp hfull), fun _ => rfl⟩
  · rw [if_neg hfull]
    rw [isFullScope_iff] at hfull
    dsimp only
    split
    · rename_i hnone
      rw [List.length_eq_zero_iff, List.filter_eq_nil_iff] at hnone
      constructor
      · intro h
        exact absurd h Bool.false_ne_true
      · intro h
        rcases h with h | ⟨e, he, hmem⟩
        · exact absurd h hfull
        · exact absurd (List.contains_iff_mem.mpr hmem) (hnone e he)
    · rename_i hsome
      refine ⟨fun _ => .inr ?_, fun _ => rfl⟩
      obtain ⟨e, he⟩ := List.exists_mem_of_length_pos (Nat.pos_of_ne_zero hsome)
      rw [List.mem_filter, List.contains_iff_mem] at he
      exact ⟨e, he.1, he.2⟩

/-- There is a message exactly for the scopes that escalate. -/
theorem escalationMessage_isSome (scope : List Units) :
    (escalationMessage scope).isSome = (scopeEscalates scope).escalates := by
  unfold escalationMessage scopeEscalates
  split
  · rfl
  · dsimp only
    split <;> rfl

/-! ## The preset -/

theorem mem_consolePresetScope {l : List Units} {e : Units} :
    e ∈ consolePresetScope l ↔ e ∈ l ∧ presetTakes e = true := by
  simp only [consolePresetScope, List.mem_append, List.mem_filter, List.mem_mergeSort, OrderedSet.has_iff,
    OrderedSet.mem_ofList, Bool.not_eq_true']
  constructor
  · intro h
    cases h with
    | inl h => exact h.2
    | inr h => exact h.1
  · intro h
    by_cases hknown : e ∈ allAdminEndpoints
    · exact .inl ⟨hknown, h⟩
    · refine .inr ⟨h, ?_⟩
      rw [← Bool.not_eq_true, OrderedSet.has_iff, OrderedSet.mem_ofList, List.mem_filter]
      exact fun hmem => hknown hmem.1

theorem consolePresetScope_nodup (l : List Units) : (consolePresetScope l).Nodup := by
  have hrest : ∀ (w : OrderedSet Units) (p : Units → Bool), ((w.items.filter p).mergeSort unitsLE).Nodup :=
    fun w p => (List.mergeSort_perm _ _).nodup_iff.mpr (w.nodup.filter _)
  refine List.nodup_append.mpr ⟨allAdminEndpoints_nodup.filter _, hrest _ _, ?_⟩
  intro a ha b hb hab
  rw [List.mem_mergeSort, List.mem_filter, Bool.not_eq_true', ← Bool.not_eq_true, OrderedSet.has_iff] at hb
  exact hb.2 (OrderedSet.mem_ofList.mpr (hab ▸ ha))

/-- The preset depends only on which of the names it takes are listed. -/
theorem consolePresetScope_congr {l l' : List Units} (h : ∀ e, presetTakes e = true → (e ∈ l ↔ e ∈ l')) :
    consolePresetScope l = consolePresetScope l' := by
  have hmem : ∀ e, e ∈ (OrderedSet.ofList (l.filter presetTakes)).items ↔
      e ∈ (OrderedSet.ofList (l'.filter presetTakes)).items := by
    intro e
    rw [OrderedSet.mem_ofList, OrderedSet.mem_ofList, List.mem_filter, List.mem_filter]
    exact and_congr_left (h e)
  have hhas : ∀ e, (OrderedSet.ofList (l.filter presetTakes)).has e =
      (OrderedSet.ofList (l'.filter presetTakes)).has e := by
    intro e
    rw [Bool.eq_iff_iff, OrderedSet.has_iff, OrderedSet.has_iff]
    exact hmem e
  simp only [consolePresetScope, hhas]
  congr 1
  exact mergeSort_congr ((OrderedSet.perm_of_mem_iff hmem).filter _)

theorem consolePresetScope_self (l : List Units) : consolePresetScope (consolePresetScope l) = consolePresetScope l :=
  consolePresetScope_congr fun e he => by
    rw [mem_consolePresetScope]
    exact and_iff_left he

theorem missing_eq {scope l : List Units} (h : allScope ∉ scope) :
    (scopeCoversConsole scope l).missing = (consolePresetScope l).filter fun e => !scope.contains e := by
  have hfull : isFullScope scope = false := by
    rw [← Bool.not_eq_true, isFullScope_iff]
    exact h
  rw [scopeCoversConsole, hfull]
  refine List.filter_congr fun e _ => ?_
  rw [Bool.not_inj_iff, Bool.eq_iff_iff, OrderedSet.has_iff, OrderedSet.mem_ofList, List.contains_iff_mem]

theorem covers_iff {scope l : List Units} : (scopeCoversConsole scope l).covers = true ↔
    allScope ∈ scope ∨ ∀ e ∈ consolePresetScope l, e ∈ scope := by
  by_cases h : allScope ∈ scope
  · rw [scopeCoversConsole, if_pos (isFullScope_iff.mpr h)]
    exact ⟨fun _ => .inl h, fun _ => rfl⟩
  · rw [or_iff_right h]
    have hcovers : (scopeCoversConsole scope l).covers = decide ((scopeCoversConsole scope l).missing.length = 0) := by
      rw [scopeCoversConsole, if_neg (mt isFullScope_iff.mp h)]
    rw [hcovers, missing_eq h, decide_eq_true_eq, List.length_eq_zero_iff, List.filter_eq_nil_iff]
    simp

/-- **The console preset is a safe canonical form.** -/
theorem consolePresetScope_canonical (l : List Units) :
    (consolePresetScope l).Nodup ∧ allScope ∉ consolePresetScope l ∧
      (∀ e ∈ scopeExemptEndpoints, e ∉ consolePresetScope l) ∧
      (scopeEscalates (consolePresetScope l)).escalates = false ∧
      (∀ e ∈ l, e ≠ allScope → e ∉ privilegeEscalationEndpoints → e ∉ scopeExemptEndpoints →
        e ∈ consolePresetScope l) ∧
      (∀ l' : List Units, (∀ e, e ∈ l' ↔ e ∈ l) → consolePresetScope l' = consolePresetScope l) ∧
      consolePresetScope (consolePresetScope l) = consolePresetScope l ∧
      (∀ scope : List Units,
        ((scopeCoversConsole scope l).covers = true ↔ allScope ∈ scope ∨ ∀ e ∈ consolePresetScope l, e ∈ scope) ∧
        (allScope ∉ scope →
          (scopeCoversConsole scope l).missing = (consolePresetScope l).filter fun e => !scope.contains e) ∧
        (allScope ∈ scope → (scopeCoversConsole scope l).missing = [])) ∧
      (scopeCoversConsole (consolePresetScope l) l).covers = true := by
  have htaken {e : Units} (he : e ∈ consolePresetScope l) := presetTakes_iff.mp (mem_consolePresetScope.mp he).2
  refine ⟨consolePresetScope_nodup l, ?_, ?_, ?_, ?_, ?_, consolePresetScope_self l, ?_, ?_⟩
  · exact fun h => (htaken h).1 rfl
  · exact fun e he h => (htaken h).2.2 he
  · rw [← Bool.not_eq_true, escalates_iff, not_or]
    refine ⟨fun h => (htaken h).1 rfl, ?_⟩
    intro ⟨e, he, hmem⟩
    exact (htaken hmem).2.1 he
  · intro e he hstar hprivilege hexempt
    exact mem_consolePresetScope.mpr ⟨he, presetTakes_iff.mpr ⟨hstar, hprivilege, hexempt⟩⟩
  · exact fun l' hl' => consolePresetScope_congr fun e _ => hl' e
  · intro scope
    refine ⟨covers_iff, missing_eq, fun h => ?_⟩
    rw [scopeCoversConsole, if_pos (isFullScope_iff.mpr h)]
  · exact covers_iff.mpr (.inr fun e he => he)

/-- `*` lacks no endpoint, though the preset's names do not stand in the scope. -/
theorem missing_of_full_scope : ¬∀ e, e ∈ (scopeCoversConsole [allScope] [utf16 "ListBuckets"]).missing ↔
    e ∈ consolePresetScope [utf16 "ListBuckets"] ∧ e ∉ [allScope] := by
  intro h
  have hpreset : utf16 "ListBuckets" ∈ consolePresetScope [utf16 "ListBuckets"] :=
    mem_consolePresetScope.mpr ⟨List.mem_cons_self, by decide⟩
  have hmissing := (h (utf16 "ListBuckets")).mpr ⟨hpreset, by decide⟩
  exact List.not_mem_nil hmissing

end GarageConsole.Scopes
