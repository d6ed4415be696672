import GarageConsole.Foundations.Chunks
import GarageConsole.Foundations.Reports
import GarageConsole.Maintenance.Status

/-! # What needs attention

`collectAttentionItems` makes the panel of the dashboard from eight sources that are fetched
independently of each other. It shows nothing at all only when there is nothing to show: every source was
read, and nothing in any of them is wrong (`attention_all_clear`).
-/

namespace GarageConsole.Dashboard

open Foundations Foundations.GoJson Foundations.Chunks Foundations.Reports Foundations.Reports.Report
open GarageConsole.RepairGuard GarageConsole.Maintenance

set_option autoImplicit false

/-! ## Texts -/

/-- The digits with a comma before every third one from the right. -/
def grouped (digits : List Char) : List Char := ([','].intercalate (chunks 3 digits.reverse)).reverse

/-- The digits of the double that the number is read as, in groups. -/
def toLocaleString (n : ℤ) : String :=
  (if n < 0 then "-" else "") ++ String.ofList (grouped (Double.text (Double.ofInt n).natAbs).toList)

def formatCount : Option ℤ → String
  | none => "-"
  | some n => toLocaleString n

def formatSecsAgo (secs : ℤ) : String :=
  if secs < 60 then Double.text secs ++ "秒前"
  else if secs < 3600 then Double.text (secs / 60) ++ "分前"
  else if secs < 86400 then Double.text (secs / 3600) ++ "時間前"
  else Double.text (secs / 86400) ++ "日前"

/-- `a || b` of two strings. -/
def orElse (a b : String) : String := if a ≠ "" then a else b

def shortId (id : String) : String :=
  if 16 < id.length then String.ofList (id.toList.take 16) ++ "…" else id

inductive NameSource where
  | global
  | localAlias
  | id
  deriving DecidableEq

structure BucketDisplayName where
  name : String
  source : NameSource

def bucketDisplayName (id : String) (globalAliases localAliases : List String) : BucketDisplayName :=
  let global := globalAliases.headD ""
  let localName := localAliases.headD ""
  if global ≠ "" then ⟨global, .global⟩ else if localName ≠ "" then ⟨localName, .localAlias⟩ else ⟨shortId id, .id⟩

def bucketDisplayLabel (d : BucketDisplayName) : String :=
  if d.source = .localAlias then d.name ++ "(ローカル)" else d.name

/-! ## The sources -/

structure ClusterHealth where
  status : String
  storageNodes : ℤ
  storageNodesUp : ℤ
  partitions : ℤ
  partitionsQuorum : ℤ

/-- What the panel reads of a node beyond what the guard on the screen does. -/
structure ClusterNode extends RepairGuard.ClusterNode where
  isUp : Bool
  lastSeenSecsAgo : Option ℤ

structure ClusterStatus where
  nodes : List ClusterNode

inductive NodeRoleChange where
  | remove (id : String)
  | assign (id zone : String) (tags : List String) (capacity : Option ℤ)

inductive ZoneRedundancy where
  | maximum
  | atLeast (n : ℤ)

structure LayoutParameters where
  zoneRedundancy : ZoneRedundancy

structure ClusterLayout where
  stagedRoleChanges : List NodeRoleChange
  stagedParameters : Option LayoutParameters

structure ListResult (α : Type) where
  items : List α
  truncated : Bool

structure KeyListItem where
  id : String
  name : String
  expiration : Option String
  expired : Bool

structure AdminToken where
  id : Option String
  name : String
  expiration : Option String
  expired : Bool

structure LocalAlias where
  localName : String

structure BucketKey where
  accessKeyId : String
  read : Bool
  write : Bool

structure BucketListItem where
  id : String
  globalAliases : List String
  localAliases : List LocalAlias
  unfinishedMultipartUploads : Option ℤ
  keys : Option (List BucketKey)

structure S3Connection where
  accessKeyId : Option String

/-- Times are milliseconds; `corruptionIncreases` holds the rise of each node's counter. -/
structure AttentionInputs where
  now : ℤ
  health : Source ClusterHealth
  status : Source ClusterStatus
  storageHealth : Source StorageHealthResponse
  corruptionIncreases : Option (GoMap ℤ)
  layout : Source ClusterLayout
  keys : Source (ListResult KeyListItem)
  adminTokens : Source (List AdminToken)
  buckets : Source (ListResult BucketListItem)
  s3Connection : Source S3Connection

/-! ## The panel -/

inductive AttentionSeverity where
  | danger
  | warning
  deriving DecidableEq

inductive BucketTab where
  | settings
  deriving DecidableEq

inductive AttentionLink where
  | node (id : String)
  | key (id : String)
  | adminToken (id : String)
  | bucket (id : String) (tab : Option BucketTab)
  | blocks
  | layout
  | adminTokens
  | buckets
  deriving DecidableEq

structure AttentionItem where
  id : String
  severity : AttentionSeverity
  message : String
  hint : Option String := none
  link : Option AttentionLink := none
  deriving DecidableEq

abbrev AttentionResult := Report AttentionItem String

def expiryWarningMs : ℤ := 7 * 24 * 60 * 60 * 1000
def multipartWarningCount : ℤ := 10
def dayMs : ℤ := 24 * 60 * 60 * 1000
def consoleKeyHintCount : ℕ := 5

section Checks

-- `Date.parse`: the time a text stands for, if it can be read as one
variable (parseDate : String → Option ℤ)

/-- The time of an expiration, if there is one; an empty text is none. -/
def expirationTime (expiration : Option String) : Option ℤ :=
  (expiration.filter fun text => text ≠ "").bind parseDate

def expiryAttention (expiration : Option String) (expired : Bool) (now : ℤ) : Option (AttentionSeverity × String) :=
  let t := expirationTime parseDate expiration
  if expired ∨ t.any (· ≤ now) then some (.danger, "有効期限が切れています")
  else t.bind fun t =>
    if expiryWarningMs < t - now then none
    else
      let left := t - now
      some (.warning,
        if left < dayMs then "24 時間以内に有効期限が切れます"
        else "あと " ++ Double.text ((left + dayMs - 1) / dayMs) ++ " 日で有効期限が切れます")

def nodeLink (node : Option ClusterNode) (id : String) (fallback : AttentionLink) : AttentionLink :=
  match node with
  | some n => if n.role = none then fallback else .node id
  | none => .node id

def checkHealth (health : ClusterHealth) : AttentionResult :=
  onlyIf (health.status ≠ "healthy") <| item
    { id := "health"
      severity := if health.status = "unavailable" then .danger else .warning
      message := "クラスタの状態が " ++ health.status ++ " です(ストレージノード " ++ Double.text health.storageNodesUp ++
        " / " ++ Double.text health.storageNodes ++ " 稼働中、quorum を満たすパーティション " ++
        Double.text health.partitionsQuorum ++ " / " ++ Double.text health.partitions ++ ")" }

def ClusterNode.displayName (n : ClusterNode) : String := nodeDisplayName n.id n.hostname

def downNotes (n : ClusterNode) : List String :=
  (if n.draining then ["draining"] else []) ++
    (n.lastSeenSecsAgo.map fun secs => "最終確認 " ++ formatSecsAgo secs).toList

def checkStorageNode (n : ClusterNode) : AttentionResult :=
  let link := nodeLink (some n) n.id .layout
  if !n.isUp then item
    { id := "node-down:" ++ n.id
      severity := .danger
      message := "ストレージノード " ++ n.displayName ++ " が切断中です" ++
        if downNotes n = [] then "" else "(" ++ "、".intercalate (downNotes n) ++ ")"
      link := some link }
  else onlyIf n.draining <| item
    { id := "node-draining:" ++ n.id
      severity := .warning
      message := "ストレージノード " ++ n.displayName ++
        " は draining 中です(レイアウトから外されましたが、まだデータを保持しています)"
      link := some link }

/-- Of equal IDs the last node counts. -/
def nodeById (nodes : List ClusterNode) (id : String) : Option ClusterNode :=
  nodes.reverse.find? fun n => n.id = id

def nameOf (nodes : List ClusterNode) (id : String) : String :=
  match nodeById nodes id with
  | some n => n.displayName
  | none => nodeDisplayName id none

def corruptionDelta (increases : Option (GoMap ℤ)) (id : String) : Option ℤ := increases.bind fun m => m.get id

def checkNodeHealth (nodes : List ClusterNode) (increases : Option (GoMap ℤ)) (entry : String × NodeStorageHealth) :
    AttentionResult :=
  onlyIf (0 < entry.2.resyncErrors.getD 0) (item
    { id := "resync:" ++ entry.1
      severity := .danger
      message := nameOf nodes entry.1 ++ " で Resync エラーが " ++ formatCount entry.2.resyncErrors ++ " 件あります"
      link := some .blocks }) ++
  ofOption (corruptionDelta increases entry.1) fun delta =>
    onlyIf (0 < delta) <| item
      { id := "corruption:" ++ entry.1
        severity := .warning
        message := nameOf nodes entry.1 ++ " で Scrub 破損検出数がページ表示後に " ++ formatCount (some delta) ++
          " 件増えました"
        link := some (nodeLink (nodeById nodes entry.1) entry.1 .blocks) }

/-- Nodes whose storage health matters: not those that are known to be down or to store nothing. -/
def relevant (status : Option ClusterStatus) (id : String) : Bool :=
  match status with
  | none => true
  | some status =>
    match nodeById status.nodes id with
    | none => true
    | some n => isStorageNode n.toClusterNode && n.isUp

/-- The nodes of a response in the order of their IDs, as they are sent. -/
def sortedNodes (sh : StorageHealthResponse) : List (String × NodeStorageHealth) :=
  sh.nodes.entries.insertionSort fun a b => a.1 ≤ b.1

def silent (status : Option ClusterStatus) (sh : StorageHealthResponse) : Bool :=
  sh.statsError ≠ "" || sh.varsError ≠ "" ||
    (sortedNodes sh).any fun entry => relevant status entry.1 && entry.2.error ≠ ""

def checkStorageHealth (status : Option ClusterStatus) (increases : Option (GoMap ℤ)) (sh : StorageHealthResponse) :
    AttentionResult :=
  forEach (sortedNodes sh) (checkNodeHealth (status.elim [] ClusterStatus.nodes) increases) ++
    onlyIf (silent status sh) (notJudged "Storage health(一部のノード)")

def checkLayout (layout : ClusterLayout) : AttentionResult :=
  let changes := layout.stagedRoleChanges.length
  let parts := (if 0 < changes then ["ノード " ++ toString changes ++ " 件"] else []) ++
    if layout.stagedParameters.isSome then ["パラメータ"] else []
  onlyIf (0 < changes ∨ layout.stagedParameters.isSome) <| item
    { id := "layout-staged"
      severity := .warning
      message := "レイアウトに未適用の変更があります(" ++ "、".intercalate parts ++ ")"
      link := some .layout }

def checkKeys (now : ℤ) (keys : ListResult KeyListItem) : AttentionResult :=
  onlyIf keys.truncated (notJudged "アクセスキー(一覧が上限で打ち切られています)") ++
  forEach keys.items fun k =>
    ofOption (expiryAttention parseDate k.expiration k.expired now) fun e => item
      { id := "key:" ++ k.id
        severity := e.1
        message := "アクセスキー " ++ orElse k.name k.id ++ ": " ++ e.2
        link := some (.key k.id) }

def checkToken (now : ℤ) (entry : AdminToken × ℕ) : AttentionResult :=
  let id := entry.1.id.getD ""
  ofOption (expiryAttention parseDate entry.1.expiration entry.1.expired now) fun e => item
    { id := "token:" ++ entry.1.id.getD ("config-" ++ toString entry.2)
      severity := e.1
      message := "管理トークン " ++ orElse entry.1.name (orElse id "(設定ファイル)") ++ ": " ++ e.2
      link := some (if id ≠ "" then .adminToken id else .adminTokens) }

def checkTokens (now : ℤ) (tokens : List AdminToken) : AttentionResult :=
  forEach tokens.zipIdx (checkToken parseDate now)

def BucketListItem.label (b : BucketListItem) : String :=
  bucketDisplayLabel (bucketDisplayName b.id b.globalAliases (b.localAliases.map LocalAlias.localName))

def checkUploads (b : BucketListItem) : AttentionResult :=
  ofOption b.unfinishedMultipartUploads fun n =>
    onlyIf (multipartWarningCount ≤ n) <| item
      { id := "multipart:" ++ b.id
        severity := .warning
        message := "バケット " ++ b.label ++ " に未完了のマルチパートアップロードが " ++ formatCount (some n) ++
          " 件あります"
        link := some (.bucket b.id (some .settings)) }

/-- The ID of the console's key; an empty one is none. -/
def consoleKey (conn : Option S3Connection) : Option String :=
  (conn.bind S3Connection.accessKeyId).filter fun id => id ≠ ""

def grantedReadWrite (keys : List BucketKey) (key : String) : Bool :=
  (keys.find? fun k => k.accessKeyId = key).any fun perm => perm.read && perm.write

/-- A bucket whose keys are not known is not said to lack the console's. -/
def noConsoleAccess (key : Option String) (b : BucketListItem) : Bool :=
  match key, b.keys with
  | some key, some keys => !grantedReadWrite keys key
  | _, _ => false

def detailMissing (key : Option String) (b : BucketListItem) : Bool :=
  b.unfinishedMultipartUploads.isNone || key.isSome && b.keys.isNone

def checkConsoleKey (names : List String) : AttentionResult :=
  let head := "、".intercalate (names.take consoleKeyHintCount)
  let rest := names.length - consoleKeyHintCount
  onlyIf (0 < names.length) <| item
    { id := "console-key"
      severity := .warning
      message := "コンソールの S3 キーに read / write 権限のないバケットが " ++ formatCount (some names.length) ++
        " 件あります(オブジェクトブラウザで閲覧・操作できません)"
      hint := some (if 0 < rest then head ++ " ほか " ++ formatCount (some rest) ++ " 件" else head)
      link := some .buckets }

def checkBuckets (conn : Option S3Connection) (buckets : ListResult BucketListItem) : AttentionResult :=
  let key := consoleKey conn
  onlyIf buckets.truncated (notJudged "バケット(一覧が上限で打ち切られています)") ++
  forEach buckets.items checkUploads ++
  checkConsoleKey ((buckets.items.filter (noConsoleAccess key)).map BucketListItem.label) ++
  onlyIf (buckets.items.any (detailMissing key)) (notJudged "バケット(一部の詳細)")

def rank : AttentionSeverity → ℕ
  | .danger => 0
  | .warning => 1

/-- The checks in the order of the source. -/
def collected (inputs : AttentionInputs) : AttentionResult :=
  let health := take inputs.health "クラスタの状態"
  let status := take inputs.status "ノード一覧"
  let storageHealth := take inputs.storageHealth "Storage health"
  let layout := take inputs.layout "レイアウト"
  let keys := take inputs.keys "アクセスキー"
  let tokens := take inputs.adminTokens "管理トークン"
  let buckets := take inputs.buckets "バケット"
  let conn := take inputs.s3Connection "コンソールの S3 キー"
  health.1 ++ ofOption health.2 checkHealth ++
  status.1 ++ forEach ((status.2.elim [] ClusterStatus.nodes).filter fun n => isStorageNode n.toClusterNode)
    checkStorageNode ++
  storageHealth.1 ++ ofOption storageHealth.2 (checkStorageHealth status.2 inputs.corruptionIncreases) ++
  layout.1 ++ ofOption layout.2 checkLayout ++
  keys.1 ++ ofOption keys.2 (checkKeys parseDate inputs.now) ++
  tokens.1 ++ ofOption tokens.2 (checkTokens parseDate inputs.now) ++
  buckets.1 ++ conn.1 ++ ofOption buckets.2 (checkBuckets conn.2)

def collectAttentionItems (inputs : AttentionInputs) : AttentionResult :=
  let r := collected parseDate inputs
  { r with items := r.items.insertionSort fun a b => rank a.severity ≤ rank b.severity }

end Checks

/-! ## What a clear check says -/

section Clear

variable {parseDate : String → Option ℤ}

theorem allClear_collected {inputs : AttentionInputs} :
    (collectAttentionItems parseDate inputs).AllClear ↔ (collected parseDate inputs).AllClear := by
  unfold collectAttentionItems AllClear
  rw [← List.length_eq_zero_iff, List.length_insertionSort, List.length_eq_zero_iff]

/-- Neither flagged as expired, nor with an expiration that is past or near. -/
def NotExpiring (parseDate : String → Option ℤ) (now : ℤ) (expiration : Option String) (expired : Bool) : Prop :=
  expired = false ∧ ∀ t, expirationTime parseDate expiration = some t → now + expiryWarningMs < t

theorem notExpiring_of_none {now : ℤ} {expiration : Option String} {expired : Bool}
    (h : expiryAttention parseDate expiration expired now = none) : NotExpiring parseDate now expiration expired := by
  rw [expiryAttention] at h
  dsimp only at h
  split_ifs at h with hdanger
  rw [not_or] at hdanger
  refine ⟨eq_false_of_ne_true hdanger.1, ?_⟩
  intro t ht
  rw [ht, Option.bind_some] at h
  split_ifs at h with hfar
  omega

theorem checkHealth_clear {health : ClusterHealth} (h : (checkHealth health).AllClear) : health.status = "healthy" :=
  not_not.mp (not_of_onlyIf h (not_allClear_item _))

theorem checkStorageNode_clear {n : ClusterNode} (h : (checkStorageNode n).AllClear) :
    n.isUp = true ∧ n.draining = false := by
  rw [checkStorageNode] at h
  by_cases hdown : (!n.isUp) = true
  · rw [if_pos hdown] at h
    exact absurd h (not_allClear_item _)
  · rw [if_neg hdown] at h
    exact ⟨by simpa using hdown, eq_false_of_ne_true (not_of_onlyIf h (not_allClear_item _))⟩

theorem checkNodeHealth_clear {nodes : List ClusterNode} {increases : Option (GoMap ℤ)}
    {entry : String × NodeStorageHealth} (h : (checkNodeHealth nodes increases entry).AllClear) :
    entry.2.resyncErrors.getD 0 ≤ 0 ∧ ∀ delta, corruptionDelta increases entry.1 = some delta → delta ≤ 0 := by
  obtain ⟨hresync, hcorruption⟩ := allClear_append.mp h
  refine ⟨not_lt.mp (not_of_onlyIf hresync (not_allClear_item _)), ?_⟩
  intro delta hdelta
  rw [hdelta] at hcorruption
  exact not_lt.mp (not_of_onlyIf hcorruption (not_allClear_item _))

theorem checkLayout_clear {layout : ClusterLayout} (h : (checkLayout layout).AllClear) :
    layout.stagedRoleChanges = [] ∧ layout.stagedParameters.isNone = true := by
  have hstaged := not_of_onlyIf h (not_allClear_item _)
  rw [not_or] at hstaged
  refine ⟨List.length_eq_zero_iff.mp (Nat.eq_zero_of_not_pos hstaged.1), ?_⟩
  rw [Option.isNone_iff_eq_none, ← Option.not_isSome_iff_eq_none]
  exact hstaged.2

theorem eq_none_of_clear {α : Type} {x : Option α} {found : α → AttentionItem}
    (h : (ofOption x fun a => (item (found a) : AttentionResult)).AllClear) : x = none := by
  cases x with
  | none => rfl
  | some a => exact absurd h (not_allClear_item _)

theorem checkKeys_clear {now : ℤ} {keys : ListResult KeyListItem} (h : (checkKeys parseDate now keys).AllClear) :
    keys.truncated = false ∧ ∀ k ∈ keys.items, NotExpiring parseDate now k.expiration k.expired := by
  obtain ⟨htruncated, hkeys⟩ := allClear_append.mp h
  refine ⟨eq_false_of_ne_true (not_of_onlyIf htruncated (not_allClear_notJudged _)), ?_⟩
  intro k hk
  exact notExpiring_of_none (eq_none_of_clear (allClear_forEach hkeys k hk))

theorem checkTokens_clear {now : ℤ} {tokens : List AdminToken} (h : (checkTokens parseDate now tokens).AllClear) :
    ∀ t ∈ tokens, NotExpiring parseDate now t.expiration t.expired := by
  intro t ht
  obtain ⟨i, hi, rfl⟩ := List.mem_iff_getElem.mp ht
  have hmem : (tokens[i], i) ∈ tokens.zipIdx := by
    rw [List.mem_zipIdx_iff_getElem?]
    exact List.getElem?_eq_getElem hi
  exact notExpiring_of_none (eq_none_of_clear (allClear_forEach h _ hmem))

theorem checkUploads_clear {b : BucketListItem} {n : ℤ} (h : (checkUploads b).AllClear)
    (hn : b.unfinishedMultipartUploads = some n) : n < multipartWarningCount := by
  rw [checkUploads, hn] at h
  exact not_le.mp (not_of_onlyIf h (not_allClear_item _))

/-- The unfinished uploads are known and few, and the console's key, if there is one, may read and write. -/
def BucketClear (conn : Option S3Connection) (b : BucketListItem) : Prop :=
  (∃ n, b.unfinishedMultipartUploads = some n ∧ n < multipartWarningCount) ∧
    ∀ key, consoleKey conn = some key → ∃ keys, b.keys = some keys ∧ grantedReadWrite keys key = true

theorem checkBuckets_clear {conn : Option S3Connection} {buckets : ListResult BucketListItem}
    (h : (checkBuckets conn buckets).AllClear) :
    buckets.truncated = false ∧ ∀ b ∈ buckets.items, BucketClear conn b := by
  obtain ⟨h, hmissing⟩ := allClear_append.mp h
  obtain ⟨h, haccess⟩ := allClear_append.mp h
  obtain ⟨htruncated, huploads⟩ := allClear_append.mp h
  have hmissing := not_of_onlyIf hmissing (not_allClear_notJudged _)
  have haccess := not_of_onlyIf haccess (not_allClear_item _)
  rw [List.length_map, List.length_pos_iff, not_not, List.filter_eq_nil_iff] at haccess
  rw [List.any_eq_true, not_exists] at hmissing
  refine ⟨eq_false_of_ne_true (not_of_onlyIf htruncated (not_allClear_notJudged _)), ?_⟩
  intro b hb
  have hknown : detailMissing (consoleKey conn) b = false := by
    have hnot := hmissing b
    rw [not_and] at hnot
    exact eq_false_of_ne_true (hnot hb)
  rw [detailMissing, Bool.or_eq_false_iff, Option.isNone_eq_false_iff, Option.isSome_iff_exists] at hknown
  obtain ⟨⟨n, hn⟩, hkeys⟩ := hknown
  refine ⟨⟨n, hn, checkUploads_clear (allClear_forEach huploads b hb) hn⟩, ?_⟩
  intro key hkey
  rw [hkey, Option.isSome_some, Bool.true_and, Option.isNone_eq_false_iff, Option.isSome_iff_exists] at hkeys
  obtain ⟨keys, hkeys⟩ := hkeys
  have hgranted := haccess b hb
  simp only [noConsoleAccess, hkey, hkeys, Bool.not_eq_true, Bool.not_eq_false'] at hgranted
  exact ⟨keys, hkeys, hgranted⟩

end Clear

/-! ## What an all-clear panel says -/

/-- The node reported how many resync errors there are, and there are none. -/
def ResyncClear (a : StorageAnswers) (id : String) : Prop :=
  ∃ multi s, a.stats = .ok multi ∧ statsIn multi id = some s ∧ s.resyncErrors ≤ 0

def CorruptionsReported (a : StorageAnswers) (id : String) : Prop :=
  ∃ multi raw c, a.vars = .ok multi ∧ multi.success.get id = some raw ∧ (readScrubVariables raw).corruptions = some c

/-- Every node that any storage question found and that matters reported both of its counters, and neither
shows anything wrong. -/
def StorageClear (a : StorageAnswers) (status : ClusterStatus) (increases : Option (GoMap ℤ)) : Prop :=
  ∀ id, a.Names id → relevant (some status) id = true →
    ResyncClear a id ∧ CorruptionsReported a id ∧ ∀ delta, corruptionDelta increases id = some delta → delta ≤ 0

theorem checkStorageHealth_clear {a : StorageAnswers} {status : ClusterStatus} {increases : Option (GoMap ℤ)}
    (h : (checkStorageHealth (some status) increases a.response).AllClear) : StorageClear a status increases := by
  obtain ⟨hnodes, hsilent⟩ := allClear_append.mp h
  have hsilent := eq_false_of_ne_true (not_of_onlyIf hsilent (not_allClear_notJudged _))
  rw [silent, Bool.or_eq_false_iff, Bool.or_eq_false_iff] at hsilent
  obtain ⟨⟨hstats, hvars⟩, herrors⟩ := hsilent
  obtain ⟨stats, hstats⟩ := failure_eq_empty (by decide) (not_not.mp (of_decide_eq_false hstats))
  obtain ⟨vars, hvars⟩ := failure_eq_empty (by decide) (not_not.mp (of_decide_eq_false hvars))
  intro id hnames hrelevant
  have hmem : (id, nodeHealth a.stats a.vars a.workers id) ∈ sortedNodes a.response := by
    rw [sortedNodes, List.mem_insertionSort]
    exact mem_response.mpr ⟨hnames, rfl⟩
  have herror : (nodeHealth a.stats a.vars a.workers id).error = "" := by
    rw [List.any_eq_false] at herrors
    have hnot := herrors _ hmem
    rw [hrelevant] at hnot
    simpa using hnot
  obtain ⟨hresync, hdelta⟩ := checkNodeHealth_clear (allClear_forEach hnodes _ hmem)
  refine ⟨?_, ?_, hdelta⟩
  · have hreported : (statsIn stats id).isSome = true := stats_of_no_error (by rw [← hstats]; exact herror)
    obtain ⟨s, hs⟩ := Option.isSome_iff_exists.mp hreported
    refine ⟨stats, s, hstats, hs, ?_⟩
    rw [nodeHealth, hstats, blockStats_ok, hs] at hresync
    exact hresync
  · have hreported := corruptions_of_no_error (by rw [← hvars]; exact herror)
    obtain ⟨c, hc⟩ := Option.isSome_iff_exists.mp hreported
    obtain ⟨v, hv, hcorruptions⟩ := Option.bind_eq_some_iff.mp hc
    obtain ⟨raw, hraw, rfl⟩ := Option.map_eq_some_iff.mp hv
    exact ⟨vars, raw, c, hvars, hraw, hcorruptions⟩

/-- What is behind a panel that shows nothing: each source was read, and nothing in it needs attention. -/
structure AllWell (parseDate : String → Option ℤ) (inputs : AttentionInputs) (storage : Source StorageAnswers) :
    Prop where
  health : ∃ health, inputs.health.Fresh health ∧ health.status = "healthy"
  nodes : ∃ status a, inputs.status.Fresh status ∧ storage.Fresh a ∧
    (∀ n ∈ status.nodes, isStorageNode n.toClusterNode = true → n.isUp = true ∧ n.draining = false) ∧
    StorageClear a status inputs.corruptionIncreases
  layout : ∃ layout, inputs.layout.Fresh layout ∧ layout.stagedRoleChanges = [] ∧
    layout.stagedParameters.isNone = true
  keys : ∃ keys, inputs.keys.Fresh keys ∧ keys.truncated = false ∧
    ∀ k ∈ keys.items, NotExpiring parseDate inputs.now k.expiration k.expired
  adminTokens : ∃ tokens, inputs.adminTokens.Fresh tokens ∧
    ∀ t ∈ tokens, NotExpiring parseDate inputs.now t.expiration t.expired
  buckets : ∃ buckets conn, inputs.buckets.Fresh buckets ∧ inputs.s3Connection.Fresh conn ∧
    buckets.truncated = false ∧ ∀ b ∈ buckets.items, BucketClear (some conn) b

/-- **An empty panel means that all is well.** Whatever the sources hold, if the storage health is what was made
of some answers of Garage: a panel without items, with nothing unknown and nothing pending is shown only if
every source was read, and what was read needs no attention. -/
theorem attention_all_clear {parseDate : String → Option ℤ} {inputs : AttentionInputs}
    {storage : Source StorageAnswers} (hbuilt : inputs.storageHealth = storage.map StorageAnswers.response)
    (hclear : (collectAttentionItems parseDate inputs).AllClear) : AllWell parseDate inputs storage := by
  rw [allClear_collected] at hclear
  simp only [collected, allClear_append, and_assoc] at hclear
  obtain ⟨hhealth, hhealthOk, hstatus, hnodesOk, hstorage, hstorageOk, hlayout, hlayoutOk, hkeys, hkeysOk, htokens,
    htokensOk, hbuckets, hconn, hbucketsOk⟩ := hclear
  obtain ⟨health, hfreshHealth, hhealth⟩ := fresh_of_take hhealth
  obtain ⟨status, hfreshStatus, hstatus⟩ := fresh_of_take hstatus
  obtain ⟨sh, hfreshStorage, hstorage⟩ := fresh_of_take hstorage
  obtain ⟨layout, hfreshLayout, hlayout⟩ := fresh_of_take hlayout
  obtain ⟨keys, hfreshKeys, hkeys⟩ := fresh_of_take hkeys
  obtain ⟨tokens, hfreshTokens, htokens⟩ := fresh_of_take htokens
  obtain ⟨buckets, hfreshBuckets, hbuckets⟩ := fresh_of_take hbuckets
  obtain ⟨conn, hfreshConn, hconn⟩ := fresh_of_take hconn
  rw [hbuilt] at hfreshStorage
  obtain ⟨a, hfreshAnswers, rfl⟩ := hfreshStorage.of_map
  rw [hhealth] at hhealthOk
  rw [hstatus] at hnodesOk hstorageOk
  rw [hstorage] at hstorageOk
  rw [hlayout] at hlayoutOk
  rw [hkeys] at hkeysOk
  rw [htokens] at htokensOk
  rw [hbuckets, hconn] at hbucketsOk
  exact
    { health := ⟨health, hfreshHealth, checkHealth_clear hhealthOk⟩
      nodes := by
        refine ⟨status, a, hfreshStatus, hfreshAnswers, ?_, checkStorageHealth_clear hstorageOk⟩
        intro n hn hstores
        exact checkStorageNode_clear (allClear_forEach hnodesOk n (List.mem_filter.mpr ⟨hn, hstores⟩))
      layout := ⟨layout, hfreshLayout, checkLayout_clear hlayoutOk⟩
      keys := ⟨keys, hfreshKeys, checkKeys_clear hkeysOk⟩
      adminTokens := ⟨tokens, hfreshTokens, checkTokens_clear htokensOk⟩
      buckets := ⟨buckets, conn, hfreshBuckets, hfreshConn, checkBuckets_clear hbucketsOk⟩ }

def loaded {α : Type} (data : α) : Source α := ⟨some data, false⟩

def newYear2030 (text : String) : Option ℤ := if text = "2030-01-01T00:00:00Z" then some 1893456000000 else none

/-- One node, one key, one token and one bucket, on 20 October 2026. -/
def calmInputs (storage : StorageAnswers) : AttentionInputs where
  now := 1792454400000
  health := loaded ⟨"healthy", 1, 1, 256, 256⟩
  status := loaded ⟨[⟨⟨"n1", some "host", some ⟨some 100⟩, false⟩, true, none⟩]⟩
  storageHealth := (loaded storage).map StorageAnswers.response
  corruptionIncreases := some .empty
  layout := loaded ⟨[], none⟩
  keys := loaded ⟨[⟨"GK1", "key", some "2030-01-01T00:00:00Z", false⟩], false⟩
  adminTokens := loaded [⟨none, "ops", none, false⟩]
  buckets := loaded ⟨[⟨"b1", ["alias"], [], some 0, some [⟨"GKconsole", true, true⟩]⟩], false⟩
  s3Connection := loaded ⟨some "GKconsole"⟩

/-- The node answered, with so many resync errors. -/
def storageOfOne (resyncErrors : ℤ) : StorageAnswers :=
  ⟨.ok { success := .set .empty "n1" (some ⟨0, resyncErrors⟩) },
   .ok { success := .set .empty "n1" (.obj [("scrub-corruptions_detected", .str "0")]) }, .ok {}⟩

theorem calm_panel_all_well : AllWell newYear2030 (calmInputs (storageOfOne 0)) (loaded (storageOfOne 0)) :=
  attention_all_clear rfl (by decide +kernel)

def storageTimedOut : StorageAnswers :=
  ⟨.ok { error := .set .empty "n1" "timeout" }, .ok { error := .set .empty "n1" "timeout" }, .ok {}⟩

/-- The status has the node twice, as a storage node and then as a gateway. -/
def twiceListed : AttentionInputs :=
  { calmInputs storageTimedOut with
    status := loaded ⟨[⟨⟨"n1", some "host", some ⟨some 100⟩, false⟩, true, none⟩,
      ⟨⟨"n1", some "host", some ⟨none⟩, false⟩, true, none⟩]⟩ }

/-- The panel flags counters above zero only, and of the entries of a node it looks at the last one. -/
theorem negative_errors_not_shown : ((calmInputs (storageOfOne (-1))).storageHealth =
        (loaded (storageOfOne (-1))).map StorageAnswers.response ∧
      (collectAttentionItems newYear2030 (calmInputs (storageOfOne (-1)))).AllClear ∧
      (∃ status, (calmInputs (storageOfOne (-1))).status.Fresh status ∧ relevant (some status) "n1" = true) ∧
      (storageOfOne (-1)).Names "n1" ∧
      ∃ multi s, (storageOfOne (-1)).stats = .ok multi ∧ statsIn multi "n1" = some s ∧ s.resyncErrors ≠ 0) ∧
    twiceListed.storageHealth = (loaded storageTimedOut).map StorageAnswers.response ∧
      (collectAttentionItems newYear2030 twiceListed).AllClear ∧
      (∃ status n, twiceListed.status.Fresh status ∧ n ∈ status.nodes ∧ n.id = "n1" ∧
        isStorageNode n.toClusterNode = true ∧ n.isUp = true) ∧
      storageTimedOut.Names "n1" ∧ ∀ multi, storageTimedOut.stats = .ok multi → statsIn multi "n1" = none := by
  refine ⟨⟨rfl, by decide +kernel, ⟨_, ⟨rfl, rfl⟩, by decide +kernel⟩, ?_, ?_⟩, rfl, by decide +kernel, ?_, ?_, ?_⟩
  · exact .inl ⟨_, rfl, .inl (by decide +kernel)⟩
  · exact ⟨_, ⟨0, -1⟩, rfl, by decide +kernel, by decide⟩
  · exact ⟨_, _, ⟨rfl, rfl⟩, List.mem_cons_self, rfl, rfl, rfl⟩
  · exact .inl ⟨_, rfl, .inr (by decide +kernel)⟩
  · intro multi hmulti
    obtain rfl := Except.ok.inj hmulti
    decide +kernel

end GarageConsole.Dashboard
