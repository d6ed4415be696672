import GarageConsole.Buckets.Aliases
import GarageConsole.Audit.Classification
import GarageConsole.Foundations.KnownPaths
import GarageConsole.Foundations.SearchParams
import GarageConsole.Foundations.Utf16

/-! # The console's requests and the server's routes

Each function of the API client puts a path together from words and ids and, where an object is meant, a query from
free text. `ApiCall.address` is what it writes, `ApiCall.asked` what it means: a handler, its path parameters and its
query. A request that is sent passes the CSRF check and arrives as it is meant (`api_calls_arrive`).
-/

namespace GarageConsole.Routes

open Foundations Foundations.Text Foundations.Path Foundations.Url Foundations.Router Foundations.Utf16

set_option autoImplicit false

/-! ## The routes that read -/

inductive ReadHandler where
  | health
  | handleLogin
  | handleCallback
  | handleMe
  | handleClusterHealth
  | handleClusterStatus
  | handleClusterLayout
  | handleLayoutHistory
  | handleClusterStatistics
  | handleStorageHealth
  | handleListBuckets
  | handleGetBucket
  | handleInspectObject
  | handleListKeys
  | handleGetKey
  | handleListObjects
  | handleDownloadObject
  | handleBatchDownloadObjectsGet
  | handlePrefixSummary
  | handleListWorkers
  | handleListAdminTokens
  | handleGetCurrentAdminToken
  | handleConsoleScope
  | handleGetAdminToken
  | handleListBlockErrors
  | handleGetNode
  | handleGetNodeStats
  | handleGetNodeWorkerVariables
  | handleListNodeWorkers
  | handleS3Connection
  deriving DecidableEq

structure ReadRoute where
  pattern : List Part
  handler : ReadHandler
  deriving DecidableEq

def ReadRoute.shape (r : ReadRoute) : Shape := some [] :: r.pattern.map Part.shape

/-- `r.Route`, of routes that read. -/
def mountedReads (pattern : List Part) (routes : List ReadRoute) : List ReadRoute :=
  routes.flatMap fun r =>
    if r.pattern = [] then [⟨pattern, r.handler⟩, ⟨pattern ++ [.word ""], r.handler⟩]
    else [⟨pattern ++ r.pattern, r.handler⟩]

def readRoutes : List ReadRoute :=
  [⟨[.word "api", .word "health"], .health⟩,
   ⟨[.word "api", .word "auth", .word "login"], .handleLogin⟩,
   ⟨[.word "api", .word "auth", .word "callback"], .handleCallback⟩,
   ⟨[.word "api", .word "auth", .word "me"], .handleMe⟩] ++
  mountedReads [.word "api", .word "cluster"]
    [⟨[.word "health"], .handleClusterHealth⟩,
     ⟨[.word "status"], .handleClusterStatus⟩,
     ⟨[.word "layout"], .handleClusterLayout⟩,
     ⟨[.word "layout", .word "history"], .handleLayoutHistory⟩,
     ⟨[.word "statistics"], .handleClusterStatistics⟩,
     ⟨[.word "storage-health"], .handleStorageHealth⟩] ++
  mountedReads [.word "api", .word "buckets"]
    [⟨[], .handleListBuckets⟩,
     ⟨[.param "id"], .handleGetBucket⟩,
     ⟨[.param "id", .word "objects", .word "inspect"], .handleInspectObject⟩] ++
  mountedReads [.word "api", .word "keys"]
    [⟨[], .handleListKeys⟩,
     ⟨[.param "id"], .handleGetKey⟩] ++
  mountedReads [.word "api", .word "objects"]
    [⟨[.param "bucket", .word "list"], .handleListObjects⟩,
     ⟨[.param "bucket", .word "download"], .handleDownloadObject⟩,
     ⟨[.param "bucket", .word "batch-download"], .handleBatchDownloadObjectsGet⟩,
     ⟨[.param "bucket", .word "prefix-summary"], .handlePrefixSummary⟩] ++
  [⟨[.word "api", .word "workers"], .handleListWorkers⟩] ++
  mountedReads [.word "api", .word "admin-tokens"]
    [⟨[], .handleListAdminTokens⟩,
     ⟨[.word "current"], .handleGetCurrentAdminToken⟩,
     ⟨[.word "console-scope"], .handleConsoleScope⟩,
     ⟨[.param "id"], .handleGetAdminToken⟩] ++
  mountedReads [.word "api", .word "blocks"]
    [⟨[.word "errors"], .handleListBlockErrors⟩] ++
  mountedReads [.word "api", .word "nodes", .param "id"]
    [⟨[], .handleGetNode⟩,
     ⟨[.word "stats"], .handleGetNodeStats⟩,
     ⟨[.word "worker-variables"], .handleGetNodeWorkerVariables⟩,
     ⟨[.word "workers"], .handleListNodeWorkers⟩] ++
  [⟨[.word "api", .word "s3", .word "connection"], .handleS3Connection⟩]

inductive Served where
  | read (handler : ReadHandler)
  | change (handler : Handler)
  deriving DecidableEq

def ReadRoute.serves (method : String) (_ : ReadRoute) : Bool := method = "GET"

/-- chi with the routes that read. -/
abbrev ReadChi := Mux readRoutes ReadRoute.serves ReadRoute.shape

/-- `current` and `console-scope` stand before the token that a placeholder may name. -/
theorem readRoutes_wordsFirst : WordsFirst readRoutes ReadRoute.serves ReadRoute.shape := by
  have hfirst : readRoutes.Pairwise fun r r' => (apart r.shape r'.shape || prefers r.shape r'.shape) = true := by
    decide
  exact hfirst.imp fun h _ _ _ => h

/-- The handler of a request with its path parameters. -/
def serve (reads : ReadChi) (chi : Chi) (method : String) (u : UrlPath) : Option (Served × List (String × Bytes)) :=
  if method = "GET" then
    (reads.find method u).map fun r =>
      (.read r.handler, (r.pattern.filterMap Part.name).zip (placeholders r.shape (segments u.routed)))
  else (routeFor chi method u).map fun r => (.change r.handler, urlParams r u)

/-! ## The CSRF check -/

structure Headers where
  requestedWith : String
  contentType : String

/-- The text of the refusal, if there is one. -/
def csrfMiddleware (method : String) (path : Bytes) (h : Headers) (contentLength : ℤ) : Option String :=
  if method = "POST" ∨ method = "PUT" ∨ method = "DELETE" then
    if h.requestedWith ≠ "XMLHttpRequest" then some "Forbidden: missing X-Requested-With header"
    else if contentLength ≠ 0 then
      if Audit.isUploadPath path then
        if !"multipart/form-data".toList.isPrefixOf h.contentType.toList &&
            !"application/json".toList.isPrefixOf h.contentType.toList then
          some "Forbidden: invalid Content-Type for upload"
        else none
      else if !"application/json".toList.isPrefixOf h.contentType.toList then
        some "Forbidden: Content-Type must be application/json"
      else none
    else none
  else none

/-! ## What the client writes -/

/-- An id as it stands in a path: of a bucket, a key, a node or a token. -/
structure Id where
  text : String
  plain : (bytes text).all isUnreserved = true
  notEmpty : bytes text ∉ [[]]
  notDots : bytes text ≠ bytes "." ∧ bytes text ≠ bytes ".."

/-- What is routed elsewhere where a token's id may stand. -/
def tokenWords : List Bytes := [[], bytes "current", bytes "console-scope"]

/-- Tokens have hexadecimal ids. -/
structure TokenId extends Id where
  notWord : bytes text ∉ tokenWords

inductive PathPart where
  | word (s : String)
  | id (i : Id)
  /-- `encodeURIComponent` of an id -/
  | component (i : Id)

def PathPart.written : PathPart → Bytes
  | .word s => bytes s
  | .id i => bytes i.text
  | .component i => encodeURIComponent i.text

/-- `encodeURIComponent`, which throws for a surrogate that stands alone. -/
def encodeComponent (s : Units) : Option Bytes :=
  if utf16 (asText s) = s then some (encodeURIComponent (asText s)) else none

inductive UrlQuery where
  | none
  | literal (name value : String)
  | component (name : String) (value : Units)
  | params (pairs : List (String × Units))

/-- The query behind the question mark, if there is one. -/
def UrlQuery.written : UrlQuery → Option (Option Bytes)
  | .none => some .none
  | .literal name value => some (some (bytes name ++ equals :: bytes value))
  | .component name value => (encodeComponent value).map fun v => some (bytes name ++ equals :: v)
  | .params [] => some .none
  | .params (p :: ps) =>
    some (some (searchParams ((p :: ps).map fun p => (bytes p.1, bytes (asText p.2)))))

structure Address where
  method : String
  path : List PathPart
  query : UrlQuery

def Address.writtenPath (a : Address) : Bytes := joined ([] :: bytes "api" :: a.path.map PathPart.written)

/-- The URL, unless writing it throws. -/
def Address.url (a : Address) : Option Bytes := a.query.written.map (Buckets.withQuery a.writtenPath)

/-- The functions of the API client, with what they put into the URL. -/
inductive ApiCall where
  | fetchMe
  | logout
  | getClusterHealth
  | getClusterStatus
  | connectClusterNodes
  | getLayoutHistory
  | skipDeadNodes
  | getClusterLayout
  | stageLayout
  | previewLayout
  | applyLayout
  | revertLayout
  | getBucket (id : Id)
  | cleanupIncompleteUploads (bucketId : Id)
  | createBucket
  | updateBucket (id : Id)
  | deleteBucket (id : Id)
  | grantBucketKey (bucketId : Id)
  | revokeBucketKey (bucketId keyId : Id)
  | getKey (id : Id) (showSecretKey : Bool)
  | createKey
  | importKey
  | updateKey (id : Id)
  | deleteKey (id : Id)
  | listObjects (bucket : Id) (keyPrefix continuationToken : Units)
  | inspectObject (bucketId : Id) (key : Units)
  | downloadObjectUrl (bucket : Id) (key : Units)
  | downloadObjectsZip (bucket : Id)
  | downloadObjectsZipLink (bucket : Id) (token : Units)
  | uploadObject (bucket : Id) (key : Units) (overwrite : Bool)
  | deleteObject (bucket : Id) (key : Units)
  | listWorkers
  | listBlockErrors
  | getBlockInfo
  | purgeBlocks
  | retryBlockResync
  | launchRepair
  | listBuckets
  | listKeys
  | getNode (id : Id)
  | getNodeStats (id : Id)
  | getNodeWorkerVariables (id : Id)
  | setNodeWorkerVariable (id : Id)
  | launchNodeRepair (id : Id)
  | createMetadataSnapshot (id : Id)
  | listNodeWorkers (id : Id)
  | deleteObjects (bucket : Id)
  | getPrefixSummary (bucket : Id) (keyPrefix : Units)
  | deletePrefix (bucket : Id) (keyPrefix : Units)
  | getClusterStatistics
  | getStorageHealth
  | setBucketKeyPermissions (bucketId keyId : Id)
  | getS3Connection
  | grantConsoleAccess (bucketId : Id)
  | listAdminTokens
  | getCurrentAdminToken
  | getConsoleScope
  | getAdminToken (id : TokenId)
  | createAdminToken
  | updateAdminToken (id : Id)
  | deleteAdminToken (id : Id)
  | addBucketAlias (bucketId : Id)

/-- What each function writes. -/
def ApiCall.address : ApiCall → Address
  | .fetchMe => ⟨"GET", [.word "auth", .word "me"], .none⟩
  | .logout => ⟨"POST", [.word "auth", .word "logout"], .none⟩
  | .getClusterHealth => ⟨"GET", [.word "cluster", .word "health"], .none⟩
  | .getClusterStatus => ⟨"GET", [.word "cluster", .word "status"], .none⟩
  | .connectClusterNodes => ⟨"POST", [.word "cluster", .word "connect"], .none⟩
  | .getLayoutHistory => ⟨"GET", [.word "cluster", .word "layout", .word "history"], .none⟩
  | .skipDeadNodes => ⟨"POST", [.word "cluster", .word "layout", .word "skip-dead-nodes"], .none⟩
  | .getClusterLayout => ⟨"GET", [.word "cluster", .word "layout"], .none⟩
  | .stageLayout => ⟨"POST", [.word "cluster", .word "layout", .word "stage"], .none⟩
  | .previewLayout => ⟨"POST", [.word "cluster", .word "layout", .word "preview"], .none⟩
  | .applyLayout => ⟨"POST", [.word "cluster", .word "layout", .word "apply"], .none⟩
  | .revertLayout => ⟨"POST", [.word "cluster", .word "layout", .word "revert"], .none⟩
  | .getBucket id => ⟨"GET", [.word "buckets", .id id], .none⟩
  | .cleanupIncompleteUploads bucketId => ⟨"POST", [.word "buckets", .id bucketId, .word "cleanup-uploads"], .none⟩
  | .createBucket => ⟨"POST", [.word "buckets"], .none⟩
  | .updateBucket id => ⟨"PUT", [.word "buckets", .id id], .none⟩
  | .deleteBucket id => ⟨"DELETE", [.word "buckets", .id id], .none⟩
  | .grantBucketKey bucketId => ⟨"POST", [.word "buckets", .id bucketId, .word "keys"], .none⟩
  | .revokeBucketKey bucketId keyId => ⟨"DELETE", [.word "buckets", .id bucketId, .word "keys", .id keyId], .none⟩
  | .getKey id showSecretKey =>
    ⟨"GET", [.word "keys", .id id], if showSecretKey then .literal "showSecretKey" "true" else .none⟩
  | .createKey => ⟨"POST", [.word "keys"], .none⟩
  | .importKey => ⟨"POST", [.word "keys", .word "import"], .none⟩
  | .updateKey id => ⟨"PUT", [.word "keys", .id id], .none⟩
  | .deleteKey id => ⟨"DELETE", [.word "keys", .id id], .none⟩
  | .listObjects bucket keyPrefix continuationToken =>
    ⟨"GET", [.word "objects", .id bucket, .word "list"],
      .params ((if keyPrefix = [] then [] else [("prefix", keyPrefix)]) ++
        if continuationToken = [] then [] else [("continuation-token", continuationToken)])⟩
  | .inspectObject bucketId key =>
    ⟨"GET", [.word "buckets", .component bucketId, .word "objects", .word "inspect"], .component "key" key⟩
  | .downloadObjectUrl bucket key => ⟨"GET", [.word "objects", .id bucket, .word "download"], .component "key" key⟩
  | .downloadObjectsZip bucket => ⟨"POST", [.word "objects", .id bucket, .word "batch-download"], .none⟩
  | .downloadObjectsZipLink bucket token =>
    ⟨"GET", [.word "objects", .id bucket, .word "batch-download"], .component "token" token⟩
  | .uploadObject bucket key overwrite =>
    ⟨"POST", [.word "objects", .id bucket, .word "upload"],
      .params (("key", key) :: if overwrite then [] else [("overwrite", utf16 "false")])⟩
  | .deleteObject bucket key => ⟨"DELETE", [.word "objects", .id bucket], .component "key" key⟩
  | .listWorkers => ⟨"GET", [.word "workers"], .none⟩
  | .listBlockErrors => ⟨"GET", [.word "blocks", .word "errors"], .none⟩
  | .getBlockInfo => ⟨"POST", [.word "blocks", .word "info"], .none⟩
  | .purgeBlocks => ⟨"POST", [.word "blocks", .word "purge"], .none⟩
  | .retryBlockResync => ⟨"POST", [.word "blocks", .word "resync"], .none⟩
  | .launchRepair => ⟨"POST", [.word "repair"], .none⟩
  | .listBuckets => ⟨"GET", [.word "buckets"], .none⟩
  | .listKeys => ⟨"GET", [.word "keys"], .none⟩
  | .getNode id => ⟨"GET", [.word "nodes", .component id], .none⟩
  | .getNodeStats id => ⟨"GET", [.word "nodes", .component id, .word "stats"], .none⟩
  | .getNodeWorkerVariables id => ⟨"GET", [.word "nodes", .component id, .word "worker-variables"], .none⟩
  | .setNodeWorkerVariable id => ⟨"POST", [.word "nodes", .component id, .word "worker-variables"], .none⟩
  | .launchNodeRepair id => ⟨"POST", [.word "nodes", .component id, .word "repair"], .none⟩
  | .createMetadataSnapshot id => ⟨"POST", [.word "nodes", .component id, .word "snapshot"], .none⟩
  | .listNodeWorkers id => ⟨"GET", [.word "nodes", .component id, .word "workers"], .none⟩
  | .deleteObjects bucket => ⟨"DELETE", [.word "objects", .id bucket, .word "batch"], .none⟩
  | .getPrefixSummary bucket keyPrefix =>
    ⟨"GET", [.word "objects", .id bucket, .word "prefix-summary"], .component "prefix" keyPrefix⟩
  | .deletePrefix bucket keyPrefix =>
    ⟨"DELETE", [.word "objects", .id bucket, .word "prefix"], .component "prefix" keyPrefix⟩
  | .getClusterStatistics => ⟨"GET", [.word "cluster", .word "statistics"], .none⟩
  | .getStorageHealth => ⟨"GET", [.word "cluster", .word "storage-health"], .none⟩
  | .setBucketKeyPermissions bucketId keyId =>
    ⟨"PUT", [.word "buckets", .id bucketId, .word "keys", .component keyId], .none⟩
  | .getS3Connection => ⟨"GET", [.word "s3", .word "connection"], .none⟩
  | .grantConsoleAccess bucketId => ⟨"POST", [.word "buckets", .component bucketId, .word "console-access"], .none⟩
  | .listAdminTokens => ⟨"GET", [.word "admin-tokens"], .none⟩
  | .getCurrentAdminToken => ⟨"GET", [.word "admin-tokens", .word "current"], .none⟩
  | .getConsoleScope => ⟨"GET", [.word "admin-tokens", .word "console-scope"], .none⟩
  | .getAdminToken id => ⟨"GET", [.word "admin-tokens", .component id.toId], .none⟩
  | .createAdminToken => ⟨"POST", [.word "admin-tokens"], .none⟩
  | .updateAdminToken id => ⟨"PUT", [.word "admin-tokens", .component id], .none⟩
  | .deleteAdminToken id => ⟨"DELETE", [.word "admin-tokens", .component id], .none⟩
  | .addBucketAlias bucketId => ⟨"POST", [.word "buckets", .id bucketId, .word "aliases"], .none⟩

/-- What `fetchJSON`, a link and an upload send with it; the boundary is the browser's. -/
def ApiCall.headers (boundary : String) : ApiCall → Headers
  | .downloadObjectUrl .. => ⟨"", ""⟩
  | .downloadObjectsZipLink .. => ⟨"", ""⟩
  | .uploadObject .. => ⟨"XMLHttpRequest", "multipart/form-data; boundary=" ++ boundary⟩
  | _ => ⟨"XMLHttpRequest", "application/json"⟩

/-! ## What is meant -/

structure Asked where
  served : Served
  parameters : List (String × Bytes)
  query : List (Bytes × Bytes)

def Id.as (i : Id) (name : String) : String × Bytes := (name, bytes i.text)

/-- The characters of a text, as the server is to read them. -/
def textArg (name : String) (s : Units) : Bytes × Bytes := (bytes name, bytes (asText s))

def ApiCall.asked : ApiCall → Asked
  | .fetchMe => ⟨.read .handleMe, [], []⟩
  | .logout => ⟨.change .handleLogout, [], []⟩
  | .getClusterHealth => ⟨.read .handleClusterHealth, [], []⟩
  | .getClusterStatus => ⟨.read .handleClusterStatus, [], []⟩
  | .connectClusterNodes => ⟨.change .handleConnectNodes, [], []⟩
  | .getLayoutHistory => ⟨.read .handleLayoutHistory, [], []⟩
  | .skipDeadNodes => ⟨.change .handleSkipDeadNodes, [], []⟩
  | .getClusterLayout => ⟨.read .handleClusterLayout, [], []⟩
  | .stageLayout => ⟨.change .handleStageLayout, [], []⟩
  | .previewLayout => ⟨.change .handlePreviewLayout, [], []⟩
  | .applyLayout => ⟨.change .handleApplyLayout, [], []⟩
  | .revertLayout => ⟨.change .handleRevertLayout, [], []⟩
  | .getBucket id => ⟨.read .handleGetBucket, [id.as "id"], []⟩
  | .cleanupIncompleteUploads bucketId => ⟨.change .handleCleanupIncompleteUploads, [bucketId.as "id"], []⟩
  | .createBucket => ⟨.change .handleCreateBucket, [], []⟩
  | .updateBucket id => ⟨.change .handleUpdateBucket, [id.as "id"], []⟩
  | .deleteBucket id => ⟨.change .handleDeleteBucket, [id.as "id"], []⟩
  | .grantBucketKey bucketId => ⟨.change .handleGrantBucketKey, [bucketId.as "id"], []⟩
  | .revokeBucketKey bucketId keyId => ⟨.change .handleRevokeBucketKey, [bucketId.as "id", keyId.as "kid"], []⟩
  | .getKey id showSecretKey =>
    ⟨.read .handleGetKey, [id.as "id"], if showSecretKey then [(bytes "showSecretKey", bytes "true")] else []⟩
  | .createKey => ⟨.change .handleCreateKey, [], []⟩
  | .importKey => ⟨.change .handleImportKey, [], []⟩
  | .updateKey id => ⟨.change .handleUpdateKey, [id.as "id"], []⟩
  | .deleteKey id => ⟨.change .handleDeleteKey, [id.as "id"], []⟩
  | .listObjects bucket keyPrefix continuationToken =>
    ⟨.read .handleListObjects, [bucket.as "bucket"],
      (if keyPrefix = [] then [] else [textArg "prefix" keyPrefix]) ++
        if continuationToken = [] then [] else [textArg "continuation-token" continuationToken]⟩
  | .inspectObject bucketId key => ⟨.read .handleInspectObject, [bucketId.as "id"], [textArg "key" key]⟩
  | .downloadObjectUrl bucket key => ⟨.read .handleDownloadObject, [bucket.as "bucket"], [textArg "key" key]⟩
  | .downloadObjectsZip bucket => ⟨.change .handleBatchDownloadObjects, [bucket.as "bucket"], []⟩
  | .downloadObjectsZipLink bucket token =>
    ⟨.read .handleBatchDownloadObjectsGet, [bucket.as "bucket"], [textArg "token" token]⟩
  | .uploadObject bucket key overwrite =>
    ⟨.change .handleUploadObject, [bucket.as "bucket"],
      textArg "key" key :: if overwrite then [] else [(bytes "overwrite", bytes "false")]⟩
  | .deleteObject bucket key => ⟨.change .handleDeleteObject, [bucket.as "bucket"], [textArg "key" key]⟩
  | .listWorkers => ⟨.read .handleListWorkers, [], []⟩
  | .listBlockErrors => ⟨.read .handleListBlockErrors, [], []⟩
  | .getBlockInfo => ⟨.change .handleGetBlockInfo, [], []⟩
  | .purgeBlocks => ⟨.change .handlePurgeBlocks, [], []⟩
  | .retryBlockResync => ⟨.change .handleRetryBlockResync, [], []⟩
  | .launchRepair => ⟨.change .handleLaunchRepair, [], []⟩
  | .listBuckets => ⟨.read .handleListBuckets, [], []⟩
  | .listKeys => ⟨.read .handleListKeys, [], []⟩
  | .getNode id => ⟨.read .handleGetNode, [id.as "id"], []⟩
  | .getNodeStats id => ⟨.read .handleGetNodeStats, [id.as "id"], []⟩
  | .getNodeWorkerVariables id => ⟨.read .handleGetNodeWorkerVariables, [id.as "id"], []⟩
  | .setNodeWorkerVariable id => ⟨.change .handleSetNodeWorkerVariable, [id.as "id"], []⟩
  | .launchNodeRepair id => ⟨.change .handleLaunchNodeRepair, [id.as "id"], []⟩
  | .createMetadataSnapshot id => ⟨.change .handleCreateNodeSnapshot, [id.as "id"], []⟩
  | .listNodeWorkers id => ⟨.read .handleListNodeWorkers, [id.as "id"], []⟩
  | .deleteObjects bucket => ⟨.change .handleBatchDeleteObjects, [bucket.as "bucket"], []⟩
  | .getPrefixSummary bucket keyPrefix =>
    ⟨.read .handlePrefixSummary, [bucket.as "bucket"], [textArg "prefix" keyPrefix]⟩
  | .deletePrefix bucket keyPrefix => ⟨.change .handleDeletePrefix, [bucket.as "bucket"], [textArg "prefix" keyPrefix]⟩
  | .getClusterStatistics => ⟨.read .handleClusterStatistics, [], []⟩
  | .getStorageHealth => ⟨.read .handleStorageHealth, [], []⟩
  | .setBucketKeyPermissions bucketId keyId =>
    ⟨.change .handleSetBucketKeyPermissions, [bucketId.as "id", keyId.as "kid"], []⟩
  | .getS3Connection => ⟨.read .handleS3Connection, [], []⟩
  | .grantConsoleAccess bucketId => ⟨.change .handleGrantConsoleAccess, [bucketId.as "id"], []⟩
  | .listAdminTokens => ⟨.read .handleListAdminTokens, [], []⟩
  | .getCurrentAdminToken => ⟨.read .handleGetCurrentAdminToken, [], []⟩
  | .getConsoleScope => ⟨.read .handleConsoleScope, [], []⟩
  | .getAdminToken id => ⟨.read .handleGetAdminToken, [id.as "id"], []⟩
  | .createAdminToken => ⟨.change .handleCreateAdminToken, [], []⟩
  | .updateAdminToken id => ⟨.change .handleUpdateAdminToken, [id.as "id"], []⟩
  | .deleteAdminToken id => ⟨.change .handleDeleteAdminToken, [id.as "id"], []⟩
  | .addBucketAlias bucketId => ⟨.change .handleAddBucketAlias, [bucketId.as "id"], []⟩

/-- The texts that are put through `encodeURIComponent`. -/
def ApiCall.components (c : ApiCall) : List Units :=
  match c.address.query with
  | .component _ value => [value]
  | _ => []

/-! ## The path arrives -/

theorem Id.component_eq (i : Id) : encodeURIComponent i.text = bytes i.text := by
  refine percentEncode_kept ?_
  rw [List.all_eq_true]
  intro b hb
  rw [keptInComponent, List.all_eq_true.mp i.plain b hb]
  rfl

def PathPart.known : PathPart → Option Bytes
  | .word s => some (bytes s)
  | _ => none

/-- Words that need no escapes. -/
def PathPart.plain : PathPart → Bool
  | .word s => (bytes s).all isUnreserved && !([[], bytes ".", bytes ".."].contains (bytes s))
  | _ => true

theorem address_plain (c : ApiCall) : c.address.path.all PathPart.plain = true := by
  cases c <;> rfl

def PathPart.text : PathPart → Bytes
  | .word s => bytes s
  | .id i => bytes i.text
  | .component i => bytes i.text

theorem PathPart.written_eq (p : PathPart) : p.written = p.text := by
  cases p with
  | word s => rfl
  | id i => rfl
  | component i => exact i.component_eq

theorem PathPart.text_plain {p : PathPart} (hp : p.plain = true) :
    p.text.all isUnreserved = true ∧ p.text ∉ [[], bytes ".", bytes ".."] := by
  have hid (i : Id) : bytes i.text ∉ [[], bytes ".", bytes ".."] := by
    have hempty := i.notEmpty
    have hdots := i.notDots
    simp only [List.mem_cons, List.not_mem_nil, or_false, not_or] at hempty ⊢
    exact ⟨hempty, hdots⟩
  cases p with
  | word s =>
    rw [PathPart.plain, Bool.and_eq_true, Bool.not_eq_true', ← Bool.not_eq_true, List.contains_iff_mem] at hp
    exact hp
  | id i => exact ⟨i.plain, hid i⟩
  | component i => exact ⟨i.plain, hid i⟩

/-- The segments of the path after the first slash. -/
def Address.parts (a : Address) : List Bytes := bytes "api" :: a.path.map PathPart.text

def Address.known (a : Address) : Known := some [] :: some (bytes "api") :: a.path.map PathPart.known

theorem Address.writtenPath_eq (a : Address) : a.writtenPath = joined ([] :: a.parts) := by
  rw [writtenPath, parts, List.map_congr_left fun p _ => p.written_eq]

theorem ApiCall.parts_plain (c : ApiCall) :
    ∀ p ∈ c.address.parts, p.all isUnreserved = true ∧ p ∉ [[], bytes ".", bytes ".."] := by
  rw [Address.parts, List.forall_mem_cons, List.forall_mem_map]
  exact ⟨by decide, fun p hp => p.text_plain (List.all_eq_true.mp (address_plain c) p hp)⟩

/-- What may stand where a call has an id, and is none. -/
def ApiCall.reserved : ApiCall → List Bytes
  | .getAdminToken _ => tokenWords
  | _ => [[]]

theorem ApiCall.filled (c : ApiCall) : Filled c.reserved c.address.known ([] :: c.address.parts) := by
  have hpath (reserved : List Bytes) : ∀ path : List PathPart, (∀ p ∈ path, p.known = none → p.text ∉ reserved) →
      Filled reserved (path.map PathPart.known) (path.map PathPart.text) := by
    intro path h
    induction path with
    | nil => exact .nil
    | cons p path ih =>
      obtain ⟨hp, hpath⟩ := List.forall_mem_cons.mp h
      cases p with
      | word s => exact .word (ih hpath)
      | id i => exact .name (hp rfl) (ih hpath)
      | component i => exact .name (hp rfl) (ih hpath)
  have hids (p : PathPart) (hnone : p.known = none) : p.text ∉ [[]] := by
    cases p with
    | word s => cases hnone
    | id i => exact i.notEmpty
    | component i => exact i.notEmpty
  refine .word (.word (hpath _ _ fun p hp hnone => ?_))
  cases c with
  | getAdminToken id =>
    rcases List.mem_cons.mp hp with rfl | hp
    · cases hnone
    · rw [List.mem_singleton.mp hp]
      exact id.notWord
  | _ => exact hids p hnone

/-- Which handler is found, by the words of the path. -/
def Address.lookup (a : Address) : Option (Served × List (String × Bytes)) :=
  if a.method = "GET" then
    (readRoutes.find? fun r => ReadRoute.serves a.method r && fits r.shape a.known).map fun r =>
      (.read r.handler, (r.pattern.filterMap Part.name).zip (placeholders r.shape ([] :: a.parts)))
  else
    (routes.find? fun r => Route.serves a.method r && fits r.shape a.known).map fun r =>
      (.change r.handler, (r.pattern.filterMap Part.name).zip (placeholders r.shape ([] :: a.parts)))

theorem settled_calls (c : ApiCall) :
    (if c.address.method = "GET" then
      readRoutes.all fun r => !ReadRoute.serves c.address.method r || settled c.reserved r.shape c.address.known
    else routes.all fun r => !Route.serves c.address.method r || settled c.reserved r.shape c.address.known) =
      true := by
  cases c <;> rfl

theorem lookup_calls (c : ApiCall) : c.address.lookup = some (c.asked.served, c.asked.parameters) := by
  cases c <;> rfl

/-- What stands in a segment that needs no escapes. -/
theorem kept_of_unreserved {s : Bytes} (h : s.all isUnreserved = true) : s.all keptInPath = true := by
  rw [List.all_eq_true] at h ⊢
  intro b hb
  rw [keptInPath, h b hb]
  rfl

theorem ApiCall.kept (c : ApiCall) : c.address.writtenPath.all keptInPath = true := by
  have hparts : ∀ ss : List Bytes, (∀ s ∈ ss, s.all keptInPath = true) → (joined ss).all keptInPath = true := by
    intro ss h
    induction ss with
    | nil => rfl
    | cons s ss ih =>
      obtain ⟨hs, hss⟩ := List.forall_mem_cons.mp h
      cases ss with
      | nil => rwa [joined, List.intercalate_singleton]
      | cons t ss =>
        rw [joined, List.intercalate_cons_cons, List.all_append, List.all_append, hs, ← joined, ih hss]
        rfl
  rw [Address.writtenPath_eq]
  refine hparts _ (List.forall_mem_cons.mpr ⟨rfl, fun p hp => kept_of_unreserved (c.parts_plain p hp).1⟩)

theorem ApiCall.segments_writtenPath (c : ApiCall) : segments c.address.writtenPath = [] :: c.address.parts := by
  rw [Address.writtenPath_eq]
  refine segments_joined (List.forall_mem_cons.mpr ⟨List.not_mem_nil, fun p hp hslash => ?_⟩) (List.cons_ne_nil _ _)
  exact absurd (List.all_eq_true.mp (c.parts_plain p hp).1 slash hslash) (by decide)

/-- The path reads as it is written, and is routed so. -/
theorem ApiCall.setPath_writtenPath (c : ApiCall) :
    setPath c.address.writtenPath = some ⟨c.address.writtenPath, []⟩ := by
  rw [setPath_of_unescape (unescape_plain c.kept), escapePath_plain c.kept, if_pos rfl]

/-- **A call is served by the handler it is for**, with its ids as the parameters of the path. -/
theorem ApiCall.serve_eq (c : ApiCall) (reads : ReadChi) (chi : Chi) :
    serve reads chi c.address.method ⟨c.address.writtenPath, []⟩ = some (c.asked.served, c.asked.parameters) := by
  have hempty : [] ∈ c.reserved := by cases c <;> exact List.mem_cons_self
  have hsettled := settled_calls c
  have hrouted : segments (UrlPath.mk c.address.writtenPath []).routed = [] :: c.address.parts := c.segments_writtenPath
  rw [← lookup_calls c, serve, Address.lookup]
  split_ifs at hsettled ⊢ with hmethod
  · rw [reads.find_eq readRoutes_wordsFirst, hrouted,
      find?_filled hempty c.filled ReadRoute.shape (ReadRoute.serves c.address.method) hsettled]
  · rw [routeFor, chi.find_eq routes_wordsFirst, hrouted,
      find?_filled hempty c.filled Route.shape (Route.serves c.address.method) hsettled]
    refine Option.map_congr fun r _ => ?_
    rw [urlParams, hrouted]

/-! ## The query arrives -/

theorem keepsClean_fetch : KeepsClean Buckets.keptByFetch := by
  intro c hc
  have hcomponent : ([ampersand, equals, semicolon, percent, plus].all fun c => !keptInComponent c) = true := by decide
  by_contra hkept
  rw [Bool.not_eq_false, Buckets.keptByFetch, Bool.and_eq_true, decide_eq_true_eq] at hkept
  rcases hc with hc | rfl | rfl
  · have hcontrol : isControl c = false := by
      by_contra h
      rw [(Buckets.component_of_control (Bool.not_eq_false _ ▸ h)).1] at hkept
      exact Bool.noConfusion hkept.1
    rw [inQuery, hcontrol, Bool.not_false, Bool.true_and, decide_eq_false_iff_not, not_not] at hc
    have hmem : c ∈ [ampersand, equals, semicolon, percent, plus] ∨ c = apostrophe := by grind
    rcases hmem with hmem | hapostrophe
    · have hnot := List.all_eq_true.mp hcomponent c hmem
      rw [hkept.1] at hnot
      cases hnot
    · exact hkept.2 hapostrophe
  · exact absurd hkept.1 (by decide)
  · exact absurd hkept.1 (by decide)

theorem spells_literal {s : String} (h : (bytes s).all isUnreserved = true) : Spells (bytes s) (bytes s) := by
  have hspells := spells_percentEncode keepsClean_unreserved (bytes s)
  rwa [percentEncode_kept h] at hspells

/-- What the query means: its names with their values, of well-formed text. -/
def UrlQuery.pairs : UrlQuery → List (Bytes × Bytes)
  | .none => []
  | .literal name value => [(bytes name, bytes value)]
  | .component name value => [textArg name value]
  | .params ps => ps.map fun p => textArg p.1 p.2

/-- Names, and values that are written as they are, need no escapes. -/
def UrlQuery.plain : UrlQuery → Bool
  | .literal name value => (bytes name).all isUnreserved && (bytes value).all isUnreserved
  | .component name _ => (bytes name).all isUnreserved
  | _ => true

/-- What a browser sends of the query spells what is meant. -/
theorem UrlQuery.spelled {q : UrlQuery} (hq : q.plain = true) {written : Option Bytes} (h : q.written = some written) :
    ∃ spelled, fetchQuery (written.getD []) = joinPairs spelled ∧ List.Forall₂ SpellsPair spelled q.pairs := by
  have hquiet {spelled pairs : List (Bytes × Bytes)} (h : List.Forall₂ SpellsPair spelled pairs) :
      fetchQuery (joinPairs spelled) = joinPairs spelled := fetchQuery_of_not_mem (joinPairs_clean h).2
  have hone (name value : Bytes) : name ++ equals :: value = joinPairs [(name, value)] :=
    (List.intercalate_singleton).symm
  cases q with
  | none =>
    obtain rfl := Option.some.inj h
    exact ⟨[], rfl, .nil⟩
  | literal name value =>
    obtain rfl := Option.some.inj h
    rw [UrlQuery.plain, Bool.and_eq_true] at hq
    have hspelled : List.Forall₂ SpellsPair [(bytes name, bytes value)] [(bytes name, bytes value)] :=
      .cons ⟨spells_literal hq.1, spells_literal hq.2⟩ .nil
    exact ⟨_, (congrArg fetchQuery (hone _ _)).trans (hquiet hspelled), hspelled⟩
  | component name value =>
    obtain ⟨v, hv, rfl⟩ := Option.map_eq_some_iff.mp h
    obtain rfl : encodeURIComponent (asText value) = v := by
      rw [encodeComponent] at hv
      split_ifs at hv
      exact Option.some.inj hv
    refine ⟨[(bytes name, percentEncode Buckets.keptByFetch (bytes (asText value)))], ?_, ?_⟩
    · rw [Option.getD_some, encodeURIComponent, Buckets.fetchQuery_component, hone]
      exact fun hmem => absurd (List.all_eq_true.mp hq apostrophe hmem) (by decide)
    · exact .cons ⟨spells_literal hq, spells_percentEncode keepsClean_fetch _⟩ .nil
  | params ps =>
    cases ps with
    | nil =>
      obtain rfl := Option.some.inj h
      exact ⟨[], rfl, .nil⟩
    | cons p ps =>
      obtain rfl := Option.some.inj h
      have hspelled := spelled_forms keepsClean_form ((p :: ps).map fun p => (bytes p.1, bytes (asText p.2)))
      exact ⟨_, hquiet hspelled, hspelled⟩

theorem UrlQuery.written_eq_none {q : UrlQuery} :
    q.written = .none ↔ ∃ name value, q = .component name value ∧ utf16 (asText value) ≠ value := by
  cases q with
  | component name value =>
    rw [UrlQuery.written, Option.map_eq_none_iff, encodeComponent]
    split_ifs with hwell
    · simp [hwell]
    · simp [hwell]
  | params ps => cases ps <;> simp [UrlQuery.written]
  | _ => simp [UrlQuery.written]

theorem address_query_plain (c : ApiCall) : c.address.query.plain = true := by
  cases c with
  | getKey id showSecretKey => cases showSecretKey <;> rfl
  | _ => rfl

theorem asked_query (c : ApiCall) : c.address.query.pairs = c.asked.query := by
  cases c with
  | getKey id showSecretKey => cases showSecretKey <;> rfl
  | listObjects bucket keyPrefix token =>
    simp only [ApiCall.address, ApiCall.asked, UrlQuery.pairs, List.map_append]
    split_ifs <;> rfl
  | uploadObject bucket key overwrite => cases overwrite <;> rfl
  | _ => rfl

theorem ApiCall.pairs_length (c : ApiCall) : c.address.query.pairs.length ≤ 2 := by
  rw [asked_query]
  cases c with
  | getKey id showSecretKey => cases showSecretKey <;> exact Nat.le_of_ble_eq_true rfl
  | listObjects bucket keyPrefix token =>
    dsimp only [ApiCall.asked]
    split_ifs <;> exact Nat.le_of_ble_eq_true rfl
  | uploadObject bucket key overwrite => cases overwrite <;> exact Nat.le_of_ble_eq_true rfl
  | _ => exact Nat.le_of_ble_eq_true rfl

/-! ## The request arrives -/

theorem ApiCall.fetchPath_writtenPath (c : ApiCall) : fetchPath c.address.writtenPath = c.address.writtenPath := by
  refine fetchPath_plain ?_
  rw [c.segments_writtenPath, List.forall_mem_cons]
  refine ⟨by decide, fun p hp => ?_⟩
  obtain ⟨hplain, hdots⟩ := c.parts_plain p hp
  have hne : p ≠ bytes "." ∧ p ≠ bytes ".." := by
    constructor <;> rintro rfl <;> exact hdots (by decide)
  have h := @not_dots_percentEncode isUnreserved (by decide) p hne.1 hne.2
  rwa [percentEncode_kept hplain] at h

theorem ApiCall.question_not_mem (c : ApiCall) : question ∉ c.address.writtenPath :=
  Buckets.not_mem_of_kept c.kept (by decide)

theorem ApiCall.fetchTarget_url (c : ApiCall) (query : Option Bytes) :
    fetchTarget (Buckets.withQuery c.address.writtenPath query) =
      Buckets.withQuery c.address.writtenPath (query.map fetchQuery) := by
  rw [fetchTarget, Buckets.cut_withQuery c.question_not_mem, c.fetchPath_writtenPath]
  cases query with
  | none =>
    rw [if_neg (by rw [Buckets.withQuery, Option.elim_none, List.append_nil]; exact c.question_not_mem)]
    exact (congrArg fetchPath (List.append_nil _)).trans (c.fetchPath_writtenPath.trans (List.append_nil _).symm)
  | some query =>
    have hmem : question ∈ Buckets.withQuery c.address.writtenPath (some query) :=
      List.mem_append_right _ List.mem_cons_self
    rw [if_pos hmem]
    rfl

theorem ApiCall.parseRequestURI_url (c : ApiCall) {query : Option Bytes}
    (hquery : (query.getD []).any isControl = false) :
    parseRequestURI (Buckets.withQuery c.address.writtenPath query) =
      some (⟨c.address.writtenPath, []⟩, query.getD []) := by
  have hpath : c.address.writtenPath.any isControl = false := by
    rw [List.any_eq_false]
    intro b hb hcontrol
    exact Buckets.not_mem_of_kept c.kept (Buckets.component_of_control hcontrol).2 hb
  have hall : (Buckets.withQuery c.address.writtenPath query).any isControl = false := by
    rw [Buckets.withQuery, List.any_append, hpath]
    cases query with
    | none => rfl
    | some query => rw [Option.elim_some, List.any_cons]; exact hquery
  rw [parseRequestURI, hall, Buckets.cut_withQuery c.question_not_mem, c.setPath_writtenPath]
  rfl

theorem csrf_get (path : Bytes) (h : Headers) (length : ℤ) : csrfMiddleware "GET" path h length = none := by
  rw [csrfMiddleware, if_neg (by decide)]

theorem csrf_json (method : String) (path : Bytes) (length : ℤ) :
    csrfMiddleware method path ⟨"XMLHttpRequest", "application/json"⟩ length = none := by
  simp [csrfMiddleware]

theorem csrf_upload {path : Bytes} (h : Audit.isUploadPath path = true) (boundary : String) (length : ℤ) :
    csrfMiddleware "POST" path ⟨"XMLHttpRequest", "multipart/form-data; boundary=" ++ boundary⟩ length = none := by
  simp [csrfMiddleware, h]

/-- Only uploads send something else than JSON, and their path is one of an upload. -/
theorem ApiCall.csrf (c : ApiCall) (boundary : String) (length : ℤ) :
    csrfMiddleware c.address.method c.address.writtenPath (c.headers boundary) length = none := by
  cases c with
  | downloadObjectUrl | downloadObjectsZipLink => exact csrf_get _ _ _
  | uploadObject bucket key overwrite =>
    refine csrf_upload (Audit.isUploadPath_iff.mpr ⟨bytes bucket.text, fun hnil => bucket.notEmpty ?_, ?_⟩) _ _
    · rw [hnil]
      exact List.mem_cons_self
    · have hstart : bytes "/api/objects/" = slash :: (bytes "api" ++ slash :: (bytes "objects" ++ [slash])) := by decide
      have hend : bytes "/upload" = slash :: bytes "upload" := by decide
      rw [Address.writtenPath_eq, hstart, hend]
      simp [joined, Address.parts, ApiCall.address, PathPart.text, List.intercalate_cons_cons]
  | _ => exact csrf_json _ _ _

/-- **Every call of the API client arrives.** Writing its URL throws exactly for free text with a surrogate that stands
alone. Otherwise what the browser sends passes the CSRF check and is routed to the handler that the call is for, which
reads the call's ids from the path and the call's texts from the query, as they are and in their order. -/
theorem api_calls_arrive (reads : ReadChi) (chi : Chi) (c : ApiCall) :
    (c.address.url = none ↔ ∃ text ∈ c.components, utf16 (asText text) ≠ text) ∧
    ∀ url, c.address.url = some url → ∃ u rawQuery,
      parseRequestURI (fetchTarget url) = some (u, rawQuery) ∧
      (∀ boundary length, csrfMiddleware c.address.method u.path (c.headers boundary) length = none) ∧
      serve reads chi c.address.method u = some (c.asked.served, c.asked.parameters) ∧
      parseQuery rawQuery = c.asked.query := by
  constructor
  · rw [Address.url, Option.map_eq_none_iff, UrlQuery.written_eq_none, ApiCall.components]
    cases c.address.query <;> simp
  · intro url hurl
    obtain ⟨written, hwritten, rfl⟩ := Option.map_eq_some_iff.mp hurl
    obtain ⟨spelled, hsent, hspelled⟩ := UrlQuery.spelled (address_query_plain c) hwritten
    have hquery : (written.map fetchQuery).getD [] = joinPairs spelled := by
      cases written with
      | none => exact hsent
      | some query => exact hsent
    refine ⟨⟨c.address.writtenPath, []⟩, joinPairs spelled, ?_, c.csrf, c.serve_eq reads chi, ?_⟩
    · rw [c.fetchTarget_url, c.parseRequestURI_url, hquery]
      rw [hquery]
      exact (joinPairs_clean hspelled).1
    · rw [← asked_query]
      exact parseQuery_spelled hspelled (c.pairs_length.trans (by decide))

end GarageConsole.Routes
