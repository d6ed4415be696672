import GarageConsole.Audit.Detail
import GarageConsole.Foundations.Path
import GarageConsole.Garage.Proxies

/-! # Changing nodes

A worker variable is set, or a snapshot taken, on one node or on all of them. The handler reads the body up to 64 KiB
and sends Garage a document of its own; the audit log reads the first 4 KiB with a reader of its own, which knows
fewer fields. Where it notes anything, it notes what Garage was asked (`node_requests_noted`).
-/

namespace GarageConsole.Nodes

open Foundations Foundations.Text Foundations.GoJson
open Audit (Detail Extractor auditDetail extractAllNodes extractWorkerVariable maxAuditBodyBytes)
open Garage (AsMeant GarageRequest Incoming SetWorkerVariableRequest asMeant_id handleCreateNodeSnapshot
  handleCreateNodeSnapshot_ok handleSetNodeWorkerVariable handleSetNodeWorkerVariable_ok isHexID nodeTarget
  projects_allNodes saysAllNodes setWorkerVariableFields settableWorkerVariables variableDocument)
open JsonWriter (document marshal parse_document)

set_option autoImplicit false

/-- The path of a request about a node. -/
def nodePath (id : Bytes) (what : String) : Bytes := Path.joined [[], bytes "api", bytes "nodes", id, bytes what]

/-! ## Which reader -/

theorem slash_notMem_id {id : Bytes} (h : isHexID id = true ∨ id = bytes "self") : Path.slash ∉ id ∧ id ≠ [] := by
  obtain h | rfl := h
  · simp only [isHexID, Bool.and_eq_true, decide_eq_true_eq, List.all_eq_true] at h
    refine ⟨fun hmem => absurd (h.2 _ hmem) (by decide), ?_⟩
    rintro rfl
    exact absurd h.1.1 (by decide)
  · exact ⟨by decide, by decide⟩

theorem segments_nodePath {id : Bytes} (h : Path.slash ∉ id) {what : String} (hwhat : Path.slash ∉ bytes what) :
    Path.segments (nodePath id what) = [[], bytes "api", bytes "nodes", id, bytes what] := by
  refine Path.segments_joined ?_ (List.cons_ne_nil _ _)
  simp only [List.forall_mem_cons]
  exact ⟨by decide, by decide, by decide, h, hwhat, nofun⟩

theorem extractorFor_workerVariables {id : Bytes} (h : isHexID id = true ∨ id = bytes "self") :
    Audit.extractorFor "POST" (nodePath id "worker-variables") = some extractWorkerVariable := by
  obtain ⟨hslash, hne⟩ := slash_notMem_id h
  have hsegments := segments_nodePath hslash (show Path.slash ∉ bytes "worker-variables" by decide)
  simp +decide [Audit.extractorFor, Audit.auditExtractors, Audit.matchesPath, hsegments, Audit.matchSegments,
    Audit.Segment.matches, hne]

theorem extractorFor_snapshot {id : Bytes} (h : isHexID id = true ∨ id = bytes "self") :
    Audit.extractorFor "POST" (nodePath id "snapshot") = some extractAllNodes := by
  obtain ⟨hslash, hne⟩ := slash_notMem_id h
  have hsegments := segments_nodePath hslash (show Path.slash ∉ bytes "snapshot" by decide)
  simp +decide [Audit.extractorFor, Audit.auditExtractors, Audit.matchesPath, hsegments, Audit.matchSegments,
    Audit.Segment.matches, hne]

/-! ## What is noted -/

/-- A reader that decodes the body needs all of it within what is read of a body. -/
theorem auditDetail_decoded {α : Type} {method : String} {path : Bytes} {dec : Decoder α} {zero : α}
    {detail : α → Detail} (h : Audit.extractorFor method path = some (Audit.decoded dec zero detail)) (data : Bytes) :
    auditDetail method path (.complete data) =
      if data.length ≤ maxAuditBodyBytes then
        ((unmarshal dec zero data).map detail).filter fun d => d ≠ []
      else none := by
  rw [auditDetail, h, Permissions.readLimited]
  dsimp only
  by_cases hlen : data.length ≤ maxAuditBodyBytes
  · have hwhole : data.take (maxAuditBodyBytes + 1) = data := List.take_of_length_le (Nat.le_succ_of_le hlen)
    rw [hwhole, List.take_of_length_le hlen, decide_eq_true hlen, if_pos hlen, Audit.decoded, if_pos rfl]
    cases unmarshal dec zero data with
    | none => rfl
    | some a =>
      rw [Option.map_some, Option.elim_some]
      by_cases hempty : detail a = []
      · rw [if_pos hempty, hempty]
        rfl
      · rw [if_neg hempty, Option.filter_some, decide_eq_true hempty, if_pos rfl]
  · have hmore : ¬(data.take (maxAuditBodyBytes + 1)).length ≤ maxAuditBodyBytes := by
      rw [List.length_take]
      omega
    rw [decide_eq_false hmore, if_neg hlen, Audit.decoded, if_neg Bool.false_ne_true]
    rfl

def auditedVariable (req : SetWorkerVariableRequest) : Audit.WorkerVariable := ⟨req.variableName, req.allNodes⟩

theorem projects_auditedVariable : Projects auditedVariable setWorkerVariableFields
    [("variable", fun r v => (string r.variableName v).map ({ r with variableName := · })),
     ("allNodes", fun r v => (bool r.allNodes v).map ({ r with allNodes := · }))] := by
  refine .keep (fun r r' v h => ?_) (.drop (fun r r' v h => ?_) (.keep (fun r r' v h => ?_) .nil)) <;>
    obtain ⟨field, hfield, rfl⟩ := Option.map_eq_some_iff.mp h
  · exact Option.map_eq_some_iff.mpr ⟨field, hfield, rfl⟩
  · rfl
  · exact Option.map_eq_some_iff.mpr ⟨field, hfield, rfl⟩

/-- What `extractWorkerVariable` makes of what it reads. -/
def variableDetail (r : Audit.WorkerVariable) : Detail :=
  if Audit.auditSafeToken (toText (trimSpace (bytes r.variableName))) then
    [("variable", .str (toText (trimSpace (bytes r.variableName)))), ("allNodes", .bool r.allNodes)]
  else []

theorem auditSafeToken_settable {name : String} (h : name ∈ settableWorkerVariables) :
    Audit.auditSafeToken name = true ∧ toText (bytes name) = name := by
  simp only [settableWorkerVariables, List.mem_cons, List.not_mem_nil, or_false] at h
  obtain rfl | rfl | rfl := h <;> decide +kernel

theorem auditDetail_variable {id data : Bytes} (hid : isHexID id = true ∨ id = bytes "self")
    {req : SetWorkerVariableRequest} (hreq : unmarshal (struct setWorkerVariableFields) {} data = some req)
    {name : String} (hname : name ∈ settableWorkerVariables) (heq : trimSpace (bytes req.variableName) = bytes name) :
    auditDetail "POST" (nodePath id "worker-variables") (.complete data) =
      if data.length ≤ maxAuditBodyBytes then some [("variable", .str name), ("allNodes", .bool req.allNodes)]
      else none := by
  obtain ⟨hsafe, htext⟩ := auditSafeToken_settable hname
  have hread : unmarshal Audit.workerVariable {} data = some (auditedVariable req) :=
    projects_auditedVariable.unmarshal (by decide +kernel) hreq
  have hextract : Audit.extractorFor "POST" (nodePath id "worker-variables") =
      some (Audit.decoded Audit.workerVariable {} variableDetail) := extractorFor_workerVariables hid
  have hdetail : variableDetail (auditedVariable req) =
      [("variable", .str name), ("allNodes", .bool req.allNodes)] := by
    rw [variableDetail, auditedVariable, heq, htext, if_pos hsafe]
  rw [auditDetail_decoded hextract, hread, Option.map_some, hdetail]
  rfl

theorem auditDetail_snapshot {id : Bytes} (hid : isHexID id = true ∨ id = bytes "self") (data : Bytes) :
    auditDetail "POST" (nodePath id "snapshot") (.complete data) =
      if data.length ≤ maxAuditBodyBytes ∧ (unmarshal (struct [("allNodes", bool)]) false data).isSome = true then
        some [("allNodes", .bool (saysAllNodes (.complete data)))]
      else none := by
  have hextract : Audit.extractorFor "POST" (nodePath id "snapshot") =
      some (Audit.decoded (struct [("allNodes", bool)]) false fun b => [("allNodes", .bool b)]) :=
    extractorFor_snapshot hid
  rw [auditDetail_decoded hextract, saysAllNodes]
  cases unmarshal (struct [("allNodes", bool)]) false data with
  | none => simp
  | some b =>
    have hkept : Option.filter (fun d : Detail => d ≠ []) (some [("allNodes", Json.bool b)]) =
        some [("allNodes", .bool b)] := rfl
    rw [Option.map_some, hkept]
    simp

/-- **What is noted is what Garage is asked.** Whatever bytes come as the body: where Garage is asked to set a variable,
it is one of the three, its value is not blank, the document that Garage gets says both and nothing else, and the log
notes this variable and whether Garage is asked for all nodes or the one of the path, unless the body is over 4 KiB.
Where Garage is asked for a snapshot, the log notes whether it is asked for all nodes or the one of the path, unless the
body is over 4 KiB or blank. -/
theorem node_requests_noted (errorText : Bytes → String) (id : Bytes) (incoming : Incoming) :
    (∀ g, handleSetNodeWorkerVariable errorText id incoming = .ok g → ∃ data req name garageBody,
      incoming = .complete data ∧ unmarshal (struct setWorkerVariableFields) {} data = some req ∧
      name ∈ settableWorkerVariables ∧ trimSpace (bytes req.variableName) = bytes name ∧
      trimSpace (bytes req.value) ≠ [] ∧
      AsMeant g "/v2/SetWorkerVariable" [(bytes "node", nodeTarget id req.allNodes)] ∧
      g.body = some (.complete garageBody) ∧
      Json.parse garageBody = some (variableDocument (bytes name) (trimSpace (bytes req.value))) ∧
      auditDetail "POST" (nodePath id "worker-variables") incoming =
        if data.length ≤ maxAuditBodyBytes then some [("variable", .str name), ("allNodes", .bool req.allNodes)]
        else none) ∧
    ∀ g, handleCreateNodeSnapshot errorText id incoming = .ok g → ∃ data, incoming = .complete data ∧
      AsMeant g "/v2/CreateMetadataSnapshot" [(bytes "node", nodeTarget id (saysAllNodes incoming))] ∧ g.body = none ∧
      auditDetail "POST" (nodePath id "snapshot") incoming =
        if data.length ≤ maxAuditBodyBytes ∧ trimSpace data ≠ [] then
          some [("allNodes", .bool (saysAllNodes incoming))]
        else none := by
  refine ⟨fun g h => ?_, fun g h => ?_⟩
  · obtain ⟨hid, data, req, rfl, -, hreq, hvalue, hsettable, rfl⟩ := handleSetNodeWorkerVariable_ok h
    obtain ⟨name, hname, heq⟩ := List.mem_map.mp hsettable
    rw [← heq]
    exact ⟨data, req, name, _, rfl, hreq, hname, heq.symm, hvalue,
      asMeant_id rfl (by decide +kernel) (by decide +kernel) _, rfl, parse_document marshal _,
      auditDetail_variable hid hreq hname heq.symm⟩
  · obtain ⟨hid, data, rfl, -, hread, rfl⟩ := handleCreateNodeSnapshot_ok h
    have hwell : (unmarshal (struct [("allNodes", bool)]) false data).isSome = true ↔ trimSpace data ≠ [] := by
      constructor
      · intro hsome hblank
        rw [unmarshal, Json.parse_blank hblank] at hsome
        cases hsome
      · exact hread
    refine ⟨data, rfl, asMeant_id rfl (by decide +kernel) (by decide +kernel) _, rfl, ?_⟩
    rw [auditDetail_snapshot hid]
    simp only [hwell]

end GarageConsole.Nodes
