import GarageConsole.Audit.Agreement
import GarageConsole.Audit.Record

/-! # What the audit line does not depend on

Each extractor depends on the members it is there for and on no other, whatever letter case their names are in and
however often they stand in the body. So two requests that differ in other members only, a secret among them, and
in query parameters that are not allowlisted, leave the same line.
-/

namespace GarageConsole.Audit.Record

open Foundations Foundations.Text Foundations.GoJson Foundations.Json Foundations.JsonTokens Foundations.Url
  GarageConsole.Garage GarageConsole.Permissions GarageConsole.RepairGuard

set_option autoImplicit false

/-! ## One extractor -/

/-- The detail of a body depends on the members with visible names only. -/
def DependsOn (visible : String → Bool) (extract : Extractor) : Prop :=
  ∀ body body' : Bytes, body.length ≤ maxAuditBodyBytes → body'.length ≤ maxAuditBodyBytes →
    ∀ ms ms', parse body = some (.obj ms) → parse body' = some (.obj ms') → Alike visible ms ms' →
      extract body true = extract body' true

theorem depth_le_of_short {body : Bytes} {v : Json} (hsize : body.length ≤ maxAuditBodyBytes)
    (h : parse body = some v) :
    v.depth ≤ maxNestingDepth := by
  have hdepth := depth_of_parse h
  rw [maxAuditBodyBytes] at hsize
  rw [maxNestingDepth]
  omega

theorem unmarshal_short {α : Type} {body : Bytes} {v : Json} (hsize : body.length ≤ maxAuditBodyBytes)
    (h : parse body = some v) (dec : Decoder α) (zero : α) : unmarshal dec zero body = dec zero v := by
  rw [unmarshal, h]
  exact if_pos (depth_le_of_short hsize h)

theorem dependsOn_unmarshal {σ : Type} (fields : List (GoJson.Field σ)) (zero : σ) {body body' : Bytes}
    (hsize : body.length ≤ maxAuditBodyBytes) (hsize' : body'.length ≤ maxAuditBodyBytes)
    {ms ms' : List (String × Json)} (h : parse body = some (.obj ms)) (h' : parse body' = some (.obj ms'))
    (halike : Alike (named (fields.map Prod.fst)) ms ms') :
    unmarshal (struct fields) zero body = unmarshal (struct fields) zero body' := by
  rw [unmarshal_short hsize h, unmarshal_short hsize' h']
  exact halike.struct (fun name => fieldOf_of_not_named) zero

theorem dependsOn_decoded {σ : Type} {fields : List (GoJson.Field σ)} {zero : σ} {detail : σ → Detail}
    {extract : Extractor} {names : List String} (hextract : extract = decoded (struct fields) zero detail)
    (hnames : fields.map Prod.fst = names) : DependsOn (named names) extract := by
  intro body body' hsize hsize' ms ms' h h' halike
  rw [← hnames] at halike
  rw [hextract, decoded, decoded, dependsOn_unmarshal fields zero hsize hsize' h h' halike]

theorem dependsOn_repairType : DependsOn (named ["repairType"]) extractRepairType := by
  intro body body' hsize hsize' ms ms' h h' halike
  have heq : decodeRepairType body = decodeRepairType body' := by
    rw [decodeRepairType, decodeRepairType,
      dependsOn_unmarshal [("repairType", raw)] none hsize hsize' h h' halike]
  rw [extractRepairType, extractRepairType, heq]

/-- The walk over the tokens goes by the exact name. -/
theorem dependsOn_objectKeys : DependsOn (fun name => name = "keys") extractObjectKeys := by
  intro body body' hsize hsize' ms ms' h h' halike
  obtain ⟨rest, hparse⟩ := parsePrefix_of_parse h
  obtain ⟨rest', hparse'⟩ := parsePrefix_of_parse h'
  rw [extractObjectKeys_of_parse hparse (depth_le_of_short hsize h),
    extractObjectKeys_of_parse hparse' (depth_le_of_short hsize' h'), halike.lookup rfl]

/-- An object is no list of hashes. -/
theorem blockHashes_object {body : Bytes} {ms : List (String × Json)} (h : parse body = some (.obj ms)) :
    extractBlockHashes body true = [] := by
  obtain ⟨rest, hparse⟩ := parsePrefix_of_parse h
  obtain ⟨inside, fuel, hopen, -, -⟩ := object_of_parse hparse
  rw [extractBlockHashes, stringArraySummary, hopen]
  rfl

theorem dependsOn_blockHashes : DependsOn (fun _ => false) extractBlockHashes := by
  intro body body' _ _ ms ms' h h' _
  rw [blockHashes_object h, blockHashes_object h']

/-! ## All of them -/

/-- The fields that the extractors are there for, in the order of `auditExtractors`. -/
def auditedFields : List (String → Bool) :=
  [named ["repairType"], named ["repairType"], named ["variable", "allNodes"], named ["allNodes"],
    fun name => name = "keys", fun _ => false, named ["version", "allowMissingData"],
    named ["version", "allowMissingData"], named ["olderThanSecs"], named ["read", "write", "owner"],
    named ["accessKeyId"]]

theorem dependsOn_auditedFields : ∀ e ∈ auditExtractors.zip auditedFields, DependsOn e.2 e.1.2.2 := by
  simp only [auditExtractors, auditedFields, List.zip_cons_cons, List.zip_nil_left, List.forall_mem_cons]
  have hlayoutVersion : DependsOn (named ["version", "allowMissingData"]) extractLayoutVersion :=
    dependsOn_decoded rfl rfl
  exact ⟨dependsOn_repairType, dependsOn_repairType, dependsOn_decoded rfl rfl, dependsOn_decoded rfl rfl,
    dependsOn_objectKeys, dependsOn_blockHashes, hlayoutVersion, hlayoutVersion, dependsOn_decoded rfl rfl,
    dependsOn_decoded rfl rfl, dependsOn_decoded rfl rfl, fun _ h => absurd h List.not_mem_nil⟩

/-- The names of members that the detail of a route may depend on. -/
def visibleFields (method : String) (path : Bytes) : String → Bool :=
  (((auditExtractors.zip auditedFields).find? fun e => e.1.1 = method && matchesPath e.1.2.1 path).map
    Prod.snd).getD fun _ => false

theorem dependsOn_visible {method : String} {path : Bytes} {extract : Extractor}
    (h : extractorFor method path = some extract) : DependsOn (visibleFields method path) extract := by
  have hzip : auditExtractors = (auditExtractors.zip auditedFields).map Prod.fst := rfl
  rw [extractorFor, hzip, List.find?_map, Option.map_map] at h
  obtain ⟨e, hfind, rfl⟩ := Option.map_eq_some_iff.mp h
  have hvisible : visibleFields method path = e.2 := by
    rw [visibleFields]
    exact congrArg (fun o => (Option.map Prod.snd o).getD fun _ => false) hfind
  rw [hvisible]
  exact dependsOn_auditedFields e (List.mem_of_find?_eq_some hfind)

theorem auditDetail_short (method : String) (path : Bytes) {body : Bytes} (hsize : body.length ≤ maxAuditBodyBytes) :
    (auditDetail method path (.complete body)).getD [] = (extractorFor method path).elim [] fun extract =>
      extract body true := by
  have hlimit : body.take (maxAuditBodyBytes + 1) = body := List.take_of_length_le (by omega)
  rw [auditDetail]
  cases extractorFor method path with
  | none => rfl
  | some extract =>
    simp only [readLimited, hlimit, List.take_of_length_le hsize, decide_eq_true hsize]
    split_ifs with hd
    · exact hd.symm
    · rfl

/-! ## Two requests -/

theorem auditQuery_eq {rawQuery rawQuery' : Bytes}
    (h : ∀ name ∈ auditQueryAllowlist, values (parseQuery rawQuery) (bytes name) =
      values (parseQuery rawQuery') (bytes name)) : auditQuery rawQuery = auditQuery rawQuery' := by
  refine List.foldl_ext _ _ _ fun out name hname => ?_
  rw [h name hname]

/-- A hidden name is hidden in every letter case. -/
theorem hidden_of_fold {fields : List String} {name hidden : String} (hname : foldName name = foldName hidden)
    (hhidden : named fields hidden = false) : named fields name = false := by
  rw [named, hname]
  exact hhidden

def importPath : Bytes := bytes "/api/keys/import"

def workerVariablesPath (node : PathSegment) : Bytes :=
  Path.joined [[], bytes "api", bytes "nodes", node.value, bytes "worker-variables"]

theorem visibleFields_import : visibleFields "POST" importPath = named ["accessKeyId"] := by
  have hsegments : Path.segments importPath = [[], bytes "api", bytes "keys", bytes "import"] := by decide +kernel
  simp +decide [visibleFields, auditExtractors, auditedFields, matchesPath, hsegments, matchSegments, Segment.matches]

theorem visibleFields_workerVariables (node : PathSegment) :
    visibleFields "POST" (workerVariablesPath node) = named ["variable", "allNodes"] := by
  have hsegments : Path.segments (workerVariablesPath node) =
      [[], bytes "api", bytes "nodes", node.value, bytes "worker-variables"] := by
    refine Path.segments_joined ?_ (List.cons_ne_nil _ _)
    have hnode := node.slashless
    simp only [List.forall_mem_cons]
    exact ⟨by decide, by decide, by decide, hnode, by decide, nofun⟩
  have hnonempty := node.nonempty
  simp +decide [visibleFields, auditExtractors, auditedFields, matchesPath, hsegments, matchSegments, Segment.matches,
    hnonempty]

/-- The same line is left by two requests that are routed and answered alike, with bodies that differ in members
which the route's extractor is not there for and query strings that differ in parameters which are not allowlisted.
The secret of an imported key and the value of a worker variable are such members, in every letter case. -/
theorem audited_alike :
    (∀ (x y : Exchange) (body body' : Bytes) (ms ms' : List (String × Json)),
      x.method = y.method → x.path = y.path → x.routed = y.routed → x.status = y.status →
      x.written.flatten = y.written.flatten →
      x.body = .complete body → body.length ≤ maxAuditBodyBytes → parse body = some (.obj ms) →
      y.body = .complete body' → body'.length ≤ maxAuditBodyBytes → parse body' = some (.obj ms') →
      Alike (visibleFields x.method x.path) ms ms' →
      (∀ name ∈ auditQueryAllowlist, values (parseQuery x.rawQuery) (bytes name) =
        values (parseQuery y.rawQuery) (bytes name)) →
      audited x = audited y) ∧
    (∀ name, foldName name = foldName "secretAccessKey" → visibleFields "POST" importPath name = false) ∧
    ∀ node name, foldName name = foldName "value" → visibleFields "POST" (workerVariablesPath node) name = false := by
  refine ⟨?_, fun name hname => ?_, fun node name hname => ?_⟩
  · intro x y body body' ms ms' hmethod hpath hrouted hstatus hwritten hx hsize hparse hy hsize' hparse' halike hquery
    have hresponse : teed maxAuditBodyBytes x.written = teed maxAuditBodyBytes y.written := by
      rw [teed_eq, teed_eq, hwritten]
    have hdetail : (auditDetail x.method x.path x.body).getD [] = (auditDetail y.method y.path y.body).getD [] := by
      rw [hx, hy, ← hmethod, ← hpath, auditDetail_short _ _ hsize, auditDetail_short _ _ hsize']
      cases hextract : extractorFor x.method x.path with
      | none => rfl
      | some extract => exact dependsOn_visible hextract body body' hsize hsize' ms ms' hparse hparse' halike
    have haudited : Streaming.isAuditedRequest (⟨x.method, x.path, x.body⟩ : Streaming.Request Incoming) =
        Streaming.isAuditedRequest (⟨y.method, y.path, y.body⟩ : Streaming.Request Incoming) := by
      rw [Streaming.isAuditedRequest, Streaming.isAuditedRequest, hmethod, hpath]
    rw [audited, audited, haudited, hdetail, hresponse]
    simp only [logAudit, hmethod, hpath, hrouted, hstatus, auditQuery_eq hquery]
  · rw [visibleFields_import]
    exact hidden_of_fold hname (by decide)
  · rw [visibleFields_workerVariables]
    exact hidden_of_fold hname (by decide)

/-- The import of a key with this secret, its name in another letter case, and with this ticket in the query. -/
def importing (secret ticket : String) : Exchange where
  method := "POST"
  path := importPath
  rawQuery := bytes ("prefix=p&token=" ++ ticket)
  body := .complete (bytes ("\x7b\"accessKeyId\":\"GK12345678\",\"SecretAccessKey\":\"" ++ secret ++ "\"\x7d"))
  routed := some ⟨"/api/keys/import", [], []⟩
  status := 200
  written := [bytes "\x7b\x7d"]

def importedMembers (secret : String) : List (String × Json) :=
  [("accessKeyId", .str "GK12345678"), ("SecretAccessKey", .str secret)]

theorem audited_alike_importing : audited (importing "s3cr3t" "t1") = audited (importing "0ther" "t2") := by
  refine audited_alike.1 (importing "s3cr3t" "t1") (importing "0ther" "t2") _ _ (importedMembers "s3cr3t")
    (importedMembers "0ther") rfl rfl rfl rfl rfl rfl (by decide) (by decide +kernel) rfl (by decide)
    (by decide +kernel) ?_
    (by decide +kernel)
  change Alike (visibleFields "POST" importPath) _ _
  rw [visibleFields_import]
  exact .cons ⟨rfl, fun _ => rfl⟩ (.cons ⟨rfl, fun h => absurd h (by decide)⟩ .nil)

end GarageConsole.Audit.Record
