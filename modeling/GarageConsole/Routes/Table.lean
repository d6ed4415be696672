import GarageConsole.Foundations.Router

/-! # The routes of the console

`newRouter`'s routes for the methods that change something. No path fits two of them (`routes_apart`), so it does
not matter in which order the router tries them.
-/

namespace GarageConsole.Routes

open Foundations Foundations.Text Foundations.Path Foundations.Router

set_option autoImplicit false

/-- The methods that are audited. -/
inductive Mutation where
  | post
  | put
  | patch
  | delete
  deriving DecidableEq

def Mutation.method : Mutation → String
  | .post => "POST"
  | .put => "PUT"
  | .patch => "PATCH"
  | .delete => "DELETE"

inductive Handler where
  | handleLogout
  | handleStageLayout
  | handlePreviewLayout
  | handleApplyLayout
  | handleRevertLayout
  | handleSkipDeadNodes
  | handleConnectNodes
  | handleCreateBucket
  | handleUpdateBucket
  | handleDeleteBucket
  | handleGrantBucketKey
  | handleRevokeBucketKey
  | handleCleanupIncompleteUploads
  | handleSetBucketKeyPermissions
  | handleAddBucketAlias
  | handleRemoveBucketAlias
  | handleGrantConsoleAccess
  | handleCreateKey
  | handleImportKey
  | handleUpdateKey
  | handleDeleteKey
  | handleBatchDownloadObjects
  | handleUploadObject
  | handleDeleteObject
  | handleBatchDeleteObjects
  | handleDeletePrefix
  | handleCreateAdminToken
  | handleUpdateAdminToken
  | handleDeleteAdminToken
  | handleGetBlockInfo
  | handlePurgeBlocks
  | handleRetryBlockResync
  | handleLaunchRepair
  | handleSetNodeWorkerVariable
  | handleLaunchNodeRepair
  | handleCreateNodeSnapshot
  deriving DecidableEq

/-- A segment of a pattern. -/
inductive Part where
  | word (s : String)
  | param (name : String)
  deriving DecidableEq

structure Route where
  method : String
  pattern : List Part
  handler : Handler
  deriving DecidableEq

def Part.shape : Part → Option Bytes
  | .word s => some (bytes s)
  | .param _ => none

/-- The segments of the paths that the route takes, the empty one before the first slash included. -/
def Route.shape (r : Route) : Shape := some [] :: r.pattern.map Part.shape

/-- `r.Route`: the routes below a pattern. The pattern itself is taken with and without a slash at its end. -/
def mounted (pattern : List Part) (routes : List Route) : List Route :=
  routes.flatMap fun r =>
    if r.pattern = [] then [{ r with pattern := pattern }, { r with pattern := pattern ++ [.word ""] }]
    else [{ r with pattern := pattern ++ r.pattern }]

def routes : List Route :=
  [⟨"POST", [.word "api", .word "auth", .word "logout"], .handleLogout⟩] ++
  mounted [.word "api", .word "cluster"]
    [⟨"POST", [.word "layout", .word "stage"], .handleStageLayout⟩,
     ⟨"POST", [.word "layout", .word "preview"], .handlePreviewLayout⟩,
     ⟨"POST", [.word "layout", .word "apply"], .handleApplyLayout⟩,
     ⟨"POST", [.word "layout", .word "revert"], .handleRevertLayout⟩,
     ⟨"POST", [.word "layout", .word "skip-dead-nodes"], .handleSkipDeadNodes⟩,
     ⟨"POST", [.word "connect"], .handleConnectNodes⟩] ++
  mounted [.word "api", .word "buckets"]
    [⟨"POST", [], .handleCreateBucket⟩,
     ⟨"PUT", [.param "id"], .handleUpdateBucket⟩,
     ⟨"DELETE", [.param "id"], .handleDeleteBucket⟩,
     ⟨"POST", [.param "id", .word "keys"], .handleGrantBucketKey⟩,
     ⟨"DELETE", [.param "id", .word "keys", .param "kid"], .handleRevokeBucketKey⟩,
     ⟨"POST", [.param "id", .word "cleanup-uploads"], .handleCleanupIncompleteUploads⟩,
     ⟨"PUT", [.param "id", .word "keys", .param "kid"], .handleSetBucketKeyPermissions⟩,
     ⟨"POST", [.param "id", .word "aliases"], .handleAddBucketAlias⟩,
     ⟨"DELETE", [.param "id", .word "aliases", .param "alias"], .handleRemoveBucketAlias⟩,
     ⟨"POST", [.param "id", .word "console-access"], .handleGrantConsoleAccess⟩] ++
  mounted [.word "api", .word "keys"]
    [⟨"POST", [], .handleCreateKey⟩,
     ⟨"POST", [.word "import"], .handleImportKey⟩,
     ⟨"PUT", [.param "id"], .handleUpdateKey⟩,
     ⟨"DELETE", [.param "id"], .handleDeleteKey⟩] ++
  mounted [.word "api", .word "objects"]
    [⟨"POST", [.param "bucket", .word "batch-download"], .handleBatchDownloadObjects⟩,
     ⟨"POST", [.param "bucket", .word "upload"], .handleUploadObject⟩,
     ⟨"DELETE", [.param "bucket"], .handleDeleteObject⟩,
     ⟨"DELETE", [.param "bucket", .word "batch"], .handleBatchDeleteObjects⟩,
     ⟨"DELETE", [.param "bucket", .word "prefix"], .handleDeletePrefix⟩] ++
  mounted [.word "api", .word "admin-tokens"]
    [⟨"POST", [], .handleCreateAdminToken⟩,
     ⟨"PUT", [.param "id"], .handleUpdateAdminToken⟩,
     ⟨"DELETE", [.param "id"], .handleDeleteAdminToken⟩] ++
  mounted [.word "api", .word "blocks"]
    [⟨"POST", [.word "info"], .handleGetBlockInfo⟩,
     ⟨"POST", [.word "purge"], .handlePurgeBlocks⟩,
     ⟨"POST", [.word "resync"], .handleRetryBlockResync⟩] ++
  [⟨"POST", [.word "api", .word "repair"], .handleLaunchRepair⟩] ++
  mounted [.word "api", .word "nodes", .param "id"]
    [⟨"POST", [.word "worker-variables"], .handleSetNodeWorkerVariable⟩,
     ⟨"POST", [.word "repair"], .handleLaunchNodeRepair⟩,
     ⟨"POST", [.word "snapshot"], .handleCreateNodeSnapshot⟩]

def Route.serves (method : String) (r : Route) : Bool := r.method = method

/-- chi with these routes. -/
abbrev Chi := Mux routes Route.serves Route.shape

/-- The route that chi finds. -/
def routeFor (chi : Chi) (method : String) (u : UrlPath) : Option Route := chi.find method u

def Part.name : Part → Option String
  | .word _ => none
  | .param name => some name

/-- `chi.URLParam`, of a route that takes the path. -/
def urlParams (r : Route) (u : UrlPath) : List (String × Bytes) :=
  (r.pattern.filterMap Part.name).zip (placeholders r.shape (segments u.routed))

def urlParam (r : Route) (u : UrlPath) (name : String) : Bytes := ((urlParams r u).lookup name).getD []

/-! ## One route for a path -/

theorem routes_plain : ∀ r ∈ routes, PlainShape r.shape := by decide

theorem routes_apart : routes.Pairwise fun r r' => r.method = r'.method → apart r.shape r'.shape = true := by
  decide

theorem routes_wordsFirst : WordsFirst routes Route.serves Route.shape := by
  refine routes_apart.imp fun {r r'} hapart method hserves hserves' => ?_
  rw [hapart ((of_decide_eq_true hserves).trans (of_decide_eq_true hserves').symm), Bool.true_or]

/-- The route of a path is the one that takes it as it was sent. -/
theorem routeFor_iff {chi : Chi} {method : String} {sent : Bytes} {u : UrlPath} {r : Route}
    (hu : setPath sent = some u) :
    routeFor chi method u = some r ↔
      r ∈ routes ∧ r.method = method ∧ admits chi.takesEmpty r.shape (segments sent) = true := by
  rw [routeFor, chi.find_eq routes_wordsFirst]
  unfold Route.serves
  rw [find?_of_exclusive, Bool.and_eq_true, decide_eq_true_eq]
  · refine and_congr_right fun hr => and_congr_right fun _ => ?_
    rw [admits_routed (routes_plain r hr) hu]
  · refine routes_apart.imp ?_
    intro r r' hapart hfits
    rw [Bool.and_eq_true, decide_eq_true_eq] at hfits
    rw [Bool.eq_false_iff, ne_eq, Bool.and_eq_true, decide_eq_true_eq]
    intro hfits'
    have hnot := not_apart (verbatim_of_admits hfits.2) (verbatim_of_admits hfits'.2)
    rw [hapart (hfits.1.trans hfits'.1.symm)] at hnot
    cases hnot

end GarageConsole.Routes
