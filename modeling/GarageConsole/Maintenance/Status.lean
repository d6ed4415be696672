import GarageConsole.Maintenance.BlockErrors
import GarageConsole.Maintenance.StorageHealth
import GarageConsole.RepairGuard.Screen

/-! # The verdict of the maintenance page

`decideMaintenanceStatus` says whether maintenance is due, from the cluster's health, the block errors and
the resync statistics. Each of the three may be on its way, have failed, or cover some nodes only, and nodes
that store no blocks are left out (`skip`). "Nothing wrong" is the last of its answers, given when there is no
gap in what was observed (`maintenance_ok`).
-/

namespace GarageConsole.Maintenance

open Foundations Foundations.GoJson GarageConsole.Garage GarageConsole.RepairGuard

set_option autoImplicit false

/-- How many nodes were read and how many were not. -/
structure FanOutInput where
  state : FetchState
  checkedNodeCount : ℕ
  nodeErrorCount : ℕ

structure MaintenanceInputs where
  health : FetchState × Option String
  blockErrors : FanOutInput × ℕ
  nodeStats : FanOutInput

inductive MaintenanceKind where
  | unknown
  | clusterUnhealthy
  | blockErrors
  | ok
  deriving DecidableEq

inductive Tone where
  | neutral
  | warning
  | danger
  deriving DecidableEq

structure MaintenanceStatus where
  kind : MaintenanceKind
  value : String
  hint : String
  tone : Tone

/-- Nothing was observed; some nodes were not; the answer is on its way. -/
structure Gaps where
  blind : List String := []
  incomplete : List String := []
  pending : List String := []

def fanOutGaps (name : String) (f : FanOutInput) (gaps : Gaps) : Gaps :=
  match f.state with
  | .pending => { gaps with pending := gaps.pending ++ [name] }
  | .error => { gaps with blind := gaps.blind ++ [name ++ "を取得できませんでした。"] }
  | .success =>
    if f.checkedNodeCount = 0 then { gaps with blind := gaps.blind ++ [name ++ "を確認できたノードがありません。"] }
    else if 0 < f.nodeErrorCount then
      { gaps with incomplete := gaps.incomplete ++ [name ++ "は " ++ toString f.nodeErrorCount ++ " ノードで未確認です。"] }
    else gaps

def healthGaps (state : FetchState) : Gaps :=
  match state with
  | .pending => { pending := ["ヘルスステータス"] }
  | .error => { blind := ["ヘルスステータスを取得できませんでした。"] }
  | .success => {}

def observationGaps (inp : MaintenanceInputs) : Gaps :=
  fanOutGaps "リシンク統計" inp.nodeStats (fanOutGaps "ブロックエラー" inp.blockErrors.1 (healthGaps inp.health.1))

def Gaps.text (gaps : Gaps) : String := String.join (gaps.blind ++ gaps.incomplete)

def withGaps (gapText hint : String) : String := if gapText ≠ "" then hint ++ " なお、" ++ gapText else hint

def decideMaintenanceStatus (inp : MaintenanceInputs) : MaintenanceStatus :=
  let gaps := observationGaps inp
  if inp.health.1 = .success ∧ inp.health.2 ≠ some "healthy" then
    { kind := .clusterUnhealthy, value := "クラスタ異常", tone := .danger
      hint := withGaps gaps.text ("ヘルスステータスが " ++ inp.health.2.getD "unknown" ++
        " です。修復操作の前に、ノードの接続状態とレイアウトを確認してください。") }
  else if inp.blockErrors.1.state = .success ∧ 0 < inp.blockErrors.2 then
    { kind := .blockErrors, value := "エラー調査", tone := .danger
      hint := withGaps gaps.text "操作を実行する前に、ブロックエラーページで失敗しているブロックを確認してください。" }
  else if gaps.text ≠ "" then
    { kind := .unknown, tone := .warning
      value := if 0 < gaps.blind.length then "判定不可" else "判定不可 (一部未確認)"
      hint := gaps.text ++ "確認できていない範囲に異常がある可能性があるため、正常とは判断できません。" }
  else if 0 < gaps.pending.length then
    { kind := .unknown, value := "確認中", tone := .neutral
      hint := "・".intercalate gaps.pending ++ "を取得しています。" }
  else
    { kind := .ok, value := "異常なし", tone := .neutral
      hint := "緊急の対応は不要です。定期的な Scrub を計画してください。" }

/-! ## From the queries of the page -/

structure Coverage where
  count : ℕ
  checkedNodeCount : ℕ
  nodeErrors : List (String × String)

/-- The coverage of the nodes that are not skipped; the node errors are sorted for display only. -/
def blockErrorsCoverage (data : Option BlockErrorsResponse) (skip : String → Bool) : Coverage where
  count := (data.elim [] BlockErrorsResponse.items).length
  checkedNodeCount := ((data.elim [] BlockErrorsResponse.checkedNodes).filter fun id => !skip id).length
  nodeErrors := (data.elim [] fun d => d.nodeErrors.entries).filter fun entry => !skip entry.1

def nodeStatsInput (state : FetchState) (health : Option StorageHealthResponse) (skip : String → Bool) : FanOutInput :=
  match state, health with
  | .success, some health =>
    if health.statsError ≠ "" then ⟨.error, 0, 0⟩
    else
      let nodes := health.nodes.entries.filter fun entry => !skip entry.1
      let checked := (nodes.filter fun entry => entry.2.resyncQueueLen.isSome && entry.2.resyncErrors.isSome).length
      ⟨.success, checked, nodes.length - checked⟩
  | .success, none => ⟨.error, 0, 0⟩
  | state, _ => ⟨state, 0, 0⟩

/-- The card of the page; the query of the health holds its status. -/
def recommendation (health : QueryLike String) (blockErrors : QueryLike BlockErrorsResponse)
    (storageHealth : QueryLike StorageHealthResponse) (skip : String → Bool) : MaintenanceStatus :=
  let coverage := blockErrorsCoverage blockErrors.data skip
  decideMaintenanceStatus
    { health := (fetchState health, health.data)
      blockErrors := (⟨fetchState blockErrors, coverage.checkedNodeCount, coverage.nodeErrors.length⟩, coverage.count)
      nodeStats := nodeStatsInput (fetchState storageHealth) storageHealth.data skip }

/-! ## When nothing is missing -/

theorem join_eq_empty_iff {l : List String} : String.join l = "" ↔ ∀ t ∈ l, t = "" := by
  induction l with
  | nil => simp
  | cons t l ih => rw [String.join_cons, String.append_eq_empty_iff, ih, List.forall_mem_cons]

def Gaps.Empty (gaps : Gaps) : Prop := (∀ t ∈ gaps.blind ++ gaps.incomplete, t = "") ∧ gaps.pending = []

/-- All of it was observed, and it was something. -/
def FanOutInput.Complete (f : FanOutInput) : Prop :=
  f.state = .success ∧ 0 < f.checkedNodeCount ∧ f.nodeErrorCount = 0

theorem not_empty_of_mem {gaps : Gaps} {t : String} (ht : t ≠ "") (hmem : t ∈ gaps.blind ++ gaps.incomplete) :
    ¬gaps.Empty := fun h => ht (h.1 t hmem)

theorem fanOutGaps_empty {name : String} {f : FanOutInput} {gaps : Gaps} (h : (fanOutGaps name f gaps).Empty) :
    f.Complete ∧ gaps.Empty := by
  have hne : ∀ s t : String, t ≠ "" → s ++ t ≠ "" := by
    intro s t ht heq
    exact ht (String.append_eq_empty_iff.mp heq).2
  unfold fanOutGaps at h
  split at h
  · have hpending := h.2
    simp at hpending
  · exact absurd h (not_empty_of_mem (hne name "を取得できませんでした。" (by decide)) (by simp))
  · rename_i hstate
    split_ifs at h with hzero herrors
    · exact absurd h (not_empty_of_mem (hne name "を確認できたノードがありません。" (by decide)) (by simp))
    · have htext := hne (name ++ "は " ++ toString f.nodeErrorCount) " ノードで未確認です。" (by decide)
      exact absurd h (not_empty_of_mem htext (by simp))
    · exact ⟨⟨hstate, Nat.pos_of_ne_zero hzero, Nat.eq_zero_of_not_pos herrors⟩, h⟩

theorem healthGaps_empty {state : FetchState} (h : (healthGaps state).Empty) : state = .success := by
  cases state with
  | success => rfl
  | pending => cases h.2
  | error => exact absurd h (not_empty_of_mem (by decide) List.mem_cons_self)

theorem decideMaintenanceStatus_ok {inp : MaintenanceInputs} (h : (decideMaintenanceStatus inp).kind = .ok) :
    inp.health = (.success, some "healthy") ∧ inp.blockErrors.1.Complete ∧ inp.blockErrors.2 = 0 ∧
      inp.nodeStats.Complete := by
  unfold decideMaintenanceStatus at h
  dsimp only at h
  split_ifs at h with hhealth hcount htext hpending
  have hempty : (observationGaps inp).Empty := by
    refine ⟨?_, ?_⟩
    · rw [not_not, Gaps.text, join_eq_empty_iff] at htext
      exact htext
    · exact List.length_eq_zero_iff.mp (Nat.eq_zero_of_not_pos hpending)
  obtain ⟨hstats, hempty⟩ := fanOutGaps_empty hempty
  obtain ⟨hblock, hempty⟩ := fanOutGaps_empty hempty
  have hstate := healthGaps_empty hempty
  refine ⟨?_, hblock, ?_, hstats⟩
  · rw [not_and, not_not] at hhealth
    exact Prod.ext hstate (hhealth hstate)
  · rw [not_and] at hcount
    exact Nat.eq_zero_of_not_pos (hcount hblock.1)

/-! ## From Garage's answers -/

structure StorageAnswers where
  stats : Except GarageError NodeStatisticsMulti
  vars : Except GarageError GarageMultiResponse
  workers : Except GarageError ListWorkersMulti

def StorageAnswers.response (a : StorageAnswers) : StorageHealthResponse := buildStorageHealth a.stats a.vars a.workers

/-- The node answered one of the questions, or failed to. -/
def StorageAnswers.Names (a : StorageAnswers) (id : String) : Prop :=
  (∃ m, a.stats = .ok m ∧ (id ∈ m.success.keys ∨ id ∈ m.error.keys)) ∨
    (∃ m, a.vars = .ok m ∧ (id ∈ m.success.keys ∨ id ∈ m.error.keys)) ∨
    ∃ m, a.workers = .ok m ∧ (id ∈ m.success.keys ∨ id ∈ m.error.keys)

theorem StorageAnswers.names_iff {a : StorageAnswers} {id : String} :
    a.Names id ↔ id ∈ statsSeen a.stats ++ varsSeen a.vars ++ workersSeen a.workers := by
  rw [List.mem_append, List.mem_append, or_assoc]
  refine or_congr ?_ (or_congr ?_ ?_)
  · cases hstats : a.stats with
    | error e => simp [statsSeen]
    | ok m => simp [mem_statsSeen]
  · cases hvars : a.vars with
    | error e => simp [varsSeen]
    | ok m => simp [varsSeen]
  · cases hworkers : a.workers with
    | error e => simp [workersSeen]
    | ok m => simp [workersSeen]

theorem mem_response {a : StorageAnswers} {id : String} {n : NodeStorageHealth} :
    (id, n) ∈ a.response.nodes.entries ↔ a.Names id ∧ n = nodeHealth a.stats a.vars a.workers id := by
  rw [a.names_iff]
  exact GoMap.mem_ofKeys

/-- A query for what is made of Garage's answer. -/
def ofAnswer {α β : Type} (f : α → β) (q : QueryLike α) : QueryLike β := ⟨q.isPending, q.isError, q.data.map f⟩

/-- Block errors that were seen to be none: no node reported one that can be read, some node was checked, and
every node that answered in any way was. -/
def NoBlockErrors (multi : ListBlockErrorsMulti) (skip : String → Bool) : Prop :=
  (∀ id entries, multi.success.get id = some entries → ∀ entry ∈ entries.getD [], readBlockError entry = none) ∧
    (∃ id, skip id = false ∧ Checked multi id) ∧
    ∀ id, skip id = false → id ∈ multi.success.keys ∨ id ∈ multi.error.keys →
      Checked multi id ∧ id ∉ multi.error.keys

/-- Some node, and every node that any of the questions found, reported both statistics. -/
def StatsReported (a : StorageAnswers) (skip : String → Bool) : Prop :=
  ∃ multi, a.stats = .ok multi ∧ (∃ id, skip id = false ∧ (statsIn multi id).isSome = true) ∧
    ∀ id, skip id = false → a.Names id → (statsIn multi id).isSome = true

theorem noBlockErrors_of_coverage {multi : ListBlockErrorsMulti} {skip : String → Bool}
    (hcount : (blockErrorsCoverage (some (flattenBlockErrors multi)) skip).count = 0)
    (hchecked : 0 < (blockErrorsCoverage (some (flattenBlockErrors multi)) skip).checkedNodeCount)
    (herrors : (blockErrorsCoverage (some (flattenBlockErrors multi)) skip).nodeErrors.length = 0) :
    NoBlockErrors multi skip := by
  refine ⟨?_, ?_, ?_⟩
  · intro id entries hget
    exact unreadable_of_no_items (List.length_eq_zero_iff.mp hcount) hget
  · obtain ⟨id, hid⟩ := List.exists_mem_of_length_pos hchecked
    obtain ⟨hmem, hskip⟩ := List.mem_filter.mp hid
    exact ⟨id, by simpa using hskip, mem_checkedNodes.mp hmem⟩
  · intro id hskip hoccurs
    refine checked_of_no_error hoccurs ?_
    rw [GoMap.mem_keys_iff]
    rintro ⟨msg, hget⟩
    rw [List.length_eq_zero_iff, blockErrorsCoverage, List.filter_eq_nil_iff] at herrors
    exact herrors (id, msg) ((GoMap.mem_entries_iff _).mpr hget) (by simp [hskip])

theorem not_complete_without_data (state : FetchState) (skip : String → Bool) :
    ¬(nodeStatsInput state none skip).Complete := by
  rintro ⟨hstate, -⟩
  cases state with
  | pending => cases hstate
  | error => cases hstate
  | success => cases hstate

theorem statsReported_of_input {a : StorageAnswers} {state : FetchState} {skip : String → Bool}
    (h : (nodeStatsInput state (some a.response) skip).Complete) : state = .success ∧ StatsReported a skip := by
  obtain ⟨hstate, hchecked, herrors⟩ := h
  cases state with
  | pending => cases hstate
  | error => cases hstate
  | success =>
    rw [nodeStatsInput] at hstate hchecked herrors
    dsimp only at hstate hchecked herrors
    split_ifs at hstate hchecked herrors with hfailed
    rw [not_not] at hfailed
    obtain ⟨multi, hmulti⟩ := failure_eq_empty (by decide) hfailed
    have hboth : ∀ {id n}, (id, n) ∈ a.response.nodes.entries →
        ((n.resyncQueueLen.isSome && n.resyncErrors.isSome) = true ↔ (statsIn multi id).isSome = true) := by
      intro id n hmem
      obtain ⟨-, rfl⟩ := mem_response.mp hmem
      rw [nodeHealth, hmulti, blockStats_ok]
      simp
    refine ⟨rfl, multi, hmulti, ?_, ?_⟩
    · obtain ⟨⟨id, n⟩, hmem⟩ := List.exists_mem_of_length_pos hchecked
      obtain ⟨hnode, hreported⟩ := List.mem_filter.mp hmem
      obtain ⟨hmem, hskip⟩ := List.mem_filter.mp hnode
      exact ⟨id, by simpa using hskip, (hboth hmem).mp hreported⟩
    · intro id hskip hnames
      have hmem := mem_response.mpr ⟨hnames, rfl⟩
      -- as many nodes reported both as there are, so each did
      have hall := (List.length_filter_eq_length_iff (p := fun entry : String × NodeStorageHealth =>
        entry.2.resyncQueueLen.isSome && entry.2.resyncErrors.isSome)).mp
          (Nat.le_antisymm (List.length_filter_le _ _) (Nat.le_of_sub_eq_zero herrors))
      exact (hboth hmem).mp (hall _ (List.mem_filter.mpr ⟨hmem, by simp [hskip]⟩))

/-- **"Nothing wrong" is said of what was seen.** Whatever Garage answered, however far the queries are and
whichever nodes are skipped: the page says that nothing is wrong only if the health was fetched and is
healthy, no node reported a block error, some node that is not skipped was checked for them and every one
that answered in any way was, and some such node and every one that any storage question found reported
both resync statistics. -/
theorem maintenance_ok {health : QueryLike String} {blockErrors : QueryLike ListBlockErrorsMulti}
    {storageHealth : QueryLike StorageAnswers} {skip : String → Bool}
    (h : (recommendation health (ofAnswer flattenBlockErrors blockErrors)
      (ofAnswer StorageAnswers.response storageHealth) skip).kind = .ok) :
    (fetchState health = .success ∧ health.data = some "healthy") ∧
      (fetchState blockErrors = .success ∧ ∃ multi, blockErrors.data = some multi ∧ NoBlockErrors multi skip) ∧
      fetchState storageHealth = .success ∧ ∃ a, storageHealth.data = some a ∧ StatsReported a skip := by
  obtain ⟨hhealth, hblock, hcount, hstats⟩ := decideMaintenanceStatus_ok h
  obtain ⟨hstate, hdata⟩ := Prod.mk.inj hhealth
  refine ⟨⟨hstate, hdata⟩, ⟨hblock.1, ?_⟩, ?_⟩
  · cases hmulti : blockErrors.data with
    | none =>
      have hchecked := hblock.2.1
      simp [ofAnswer, hmulti, blockErrorsCoverage] at hchecked
    | some multi =>
      simp only [ofAnswer, hmulti, Option.map_some] at hblock hcount
      exact ⟨multi, rfl, noBlockErrors_of_coverage hcount hblock.2.1 hblock.2.2⟩
  · cases ha : storageHealth.data with
    | none =>
      simp only [ofAnswer, ha, Option.map_none] at hstats
      exact absurd hstats (not_complete_without_data _ _)
    | some a =>
      simp only [ofAnswer, ha, Option.map_some] at hstats
      obtain ⟨hfetched, hreported⟩ := statsReported_of_input hstats
      exact ⟨hfetched, a, rfl, hreported⟩

def fetched {α : Type} (data : α) : QueryLike α := ⟨false, false, some data⟩

/-- One node answered and one did not, the gateway. -/
def answeredBy {α : Type} (v : α) : GoMap α := .set .empty "n1" v

def timedOut : GoMap String := .set .empty "gateway" "timeout"

def skipsGateway (id : String) : Bool := id = "gateway"

def blockErrorsOfTwo : ListBlockErrorsMulti := ⟨answeredBy (some []), timedOut⟩

def storageOfTwo : StorageAnswers :=
  ⟨.ok ⟨answeredBy (some ⟨0, 0⟩), timedOut⟩,
   .ok ⟨answeredBy (.obj [("scrub-corruptions_detected", .str "0")]), timedOut⟩,
   .ok ⟨.empty, timedOut⟩⟩

theorem maintenance_ok_of_two :
    (fetchState (fetched "healthy") = .success ∧ (fetched "healthy").data = some "healthy") ∧
    (fetchState (fetched blockErrorsOfTwo) = .success ∧
      ∃ multi, (fetched blockErrorsOfTwo).data = some multi ∧ NoBlockErrors multi skipsGateway) ∧
    fetchState (fetched storageOfTwo) = .success ∧
      ∃ a, (fetched storageOfTwo).data = some a ∧ StatsReported a skipsGateway :=
  maintenance_ok (by decide +kernel)

end GarageConsole.Maintenance
