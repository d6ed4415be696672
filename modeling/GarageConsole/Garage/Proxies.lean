import GarageConsole.Foundations.Blank
import GarageConsole.Foundations.JsonWriter
import GarageConsole.Foundations.Projection
import GarageConsole.Foundations.SearchParams
import GarageConsole.RepairGuard.Guard

/-! # Ids in requests to Garage

Many routes hand an id from their path on to Garage, in the query of one request. Whatever the id is, Garage reads from
that query what is meant and nothing else: no id adds a parameter or leads to another endpoint (`proxied_as_meant`).
-/

namespace GarageConsole.Garage

open Foundations Foundations.Text Foundations.GoJson Foundations.Url
open RepairGuard (maxNodeRequestBody)

set_option autoImplicit false

/-! ## Parameters -/

/-- `url.QueryEscape` -/
def queryEscape (s : Bytes) : Bytes := formEncode isUnreserved s

/-- What `hexIDPattern` matches. -/
def isHexID (id : Bytes) : Bool := 1 ≤ id.length && id.length ≤ 64 && id.all fun b => (fromHex b).isSome

def hexIDParam (id : Bytes) (what : String) (also : List String) : Except Response Bytes :=
  if isHexID id || (also.map bytes).contains id then .ok id
  else .error (writeJSONError 400
    ("invalid " ++ what ++ " id: must be hex" ++ String.join (also.map fun a => " or \"" ++ a ++ "\"")))

def exactHexIDParam (id : Bytes) (what : String) (length : ℕ) : Except Response Bytes :=
  if id.length = length ∧ isHexID id then .ok id
  else .error (writeJSONError 400
    ("invalid " ++ what ++ " id: must be " ++ toString length ++ " hex characters"))

def nodeParam (id : Bytes) : Except Response Bytes := hexIDParam id "node" ["self"]

def adminTokenIDParam (id : Bytes) : Except Response Bytes := hexIDParam id "admin token" []

/-! ## Requests -/

structure GarageRequest where
  method : String
  path : Bytes
  body : Option Incoming := none

def get (path : Bytes) : GarageRequest := { method := "GET", path }

def post (path : Bytes) (body : Option Incoming) : GarageRequest := ⟨"POST", path, body⟩

def maxAdminTokenRequestBody : ℕ := 64 * 1024

def bucketIDHexLen : ℕ := 64

def handleGetBucket (id : Bytes) : Except Response GarageRequest :=
  return get (bytes "/v2/GetBucketInfo?id=" ++ queryEscape id)

def handleUpdateBucket (id : Bytes) (body : Incoming) : Except Response GarageRequest :=
  return post (bytes "/v2/UpdateBucket?id=" ++ queryEscape id) (some body)

def handleDeleteBucket (id : Bytes) : Except Response GarageRequest :=
  return post (bytes "/v2/DeleteBucket?id=" ++ queryEscape id) none

def handleInspectObject (id query : Bytes) : Except Response GarageRequest := do
  let id ← exactHexIDParam id "bucket" bucketIDHexLen
  let key := getValue (parseQuery query) (bytes "key")
  if key = [] then throw (writeJSONError 400 "key is required")
  else return get (bytes "/v2/InspectObject?" ++ encodeValues [(bytes "bucketId", id), (bytes "key", key)])

def handleGetKey (id query : Bytes) : Except Response GarageRequest :=
  return get (bytes "/v2/GetKeyInfo?id=" ++ queryEscape id ++
    if getValue (parseQuery query) (bytes "showSecretKey") = bytes "true" then bytes "&showSecretKey=true" else [])

def handleUpdateKey (id : Bytes) (body : Incoming) : Except Response GarageRequest :=
  return post (bytes "/v2/UpdateKey?id=" ++ queryEscape id) (some body)

def handleDeleteKey (id : Bytes) : Except Response GarageRequest :=
  return post (bytes "/v2/DeleteKey?id=" ++ queryEscape id) none

def handleGetAdminToken (id : Bytes) : Except Response GarageRequest := do
  let id ← adminTokenIDParam id
  return get (bytes "/v2/GetAdminTokenInfo?id=" ++ queryEscape id)

def handleUpdateAdminToken (id : Bytes) (incoming : Incoming) : Except Response GarageRequest := do
  let id ← adminTokenIDParam id
  let body ← readRequestBody maxAdminTokenRequestBody incoming
  return post (bytes "/v2/UpdateAdminToken?id=" ++ queryEscape id) (some (.complete body))

def handleDeleteAdminToken (id : Bytes) : Except Response GarageRequest := do
  let id ← adminTokenIDParam id
  return post (bytes "/v2/DeleteAdminToken?id=" ++ queryEscape id) none

def handleGetNode (id : Bytes) : Except Response GarageRequest := do
  let id ← nodeParam id
  return get (bytes "/v2/GetNodeInfo?node=" ++ queryEscape id)

def handleGetNodeStats (id : Bytes) : Except Response GarageRequest := do
  let id ← nodeParam id
  return get (bytes "/v2/GetNodeStatistics?node=" ++ queryEscape id)

def handleGetNodeWorkerVariables (id : Bytes) : Except Response GarageRequest := do
  let id ← nodeParam id
  return post (bytes "/v2/GetWorkerVariable?node=" ++ queryEscape id) (some (.complete (bytes "{}")))

def handleListNodeWorkers (id : Bytes) : Except Response GarageRequest := do
  let id ← nodeParam id
  return post (bytes "/v2/ListWorkers?node=" ++ queryEscape id) (some (.complete (bytes "{}")))

/-! ## Requests to a node or to all of them -/

def nodeTarget (id : Bytes) (allNodes : Bool) : Bytes := if allNodes then bytes "*" else id

/-- A body that is blank leaves the value as it is; `errorText` stands for the decoder's description of what is wrong
with a body. -/
def decodeNodeBody {α : Type} (errorText : Bytes → String) (dec : Decoder α) (zero : α) (incoming : Incoming) :
    Except Response α :=
  if maxNodeRequestBody < incoming.received.length then
    .error (writeJSONError 400 "request body too large or unreadable")
  else match incoming with
    | .broken _ => .error (writeJSONError 400 "request body too large or unreadable")
    | .complete data =>
      if trimSpace data = [] then .ok zero
      else match unmarshal dec zero data with
        | none => .error (writeJSONError 400 ("invalid JSON body: " ++ errorText data))
        | some v => .ok v

structure SetWorkerVariableRequest where
  variableName : String := ""
  value : String := ""
  allNodes : Bool := false

def setWorkerVariableFields : List (GoJson.Field SetWorkerVariableRequest) :=
  [("variable", fun r v => (string r.variableName v).map ({ r with variableName := · })),
   ("value", fun r v => (string r.value v).map ({ r with value := · })),
   ("allNodes", fun r v => (bool r.allNodes v).map ({ r with allNodes := · }))]

def settableWorkerVariables : List String := ["resync-tranquility", "resync-worker-count", "scrub-tranquility"]

/-- The document that says what to set. -/
def variableDocument (name value : Bytes) : Json :=
  .obj [("value", .str (toText value)), ("variable", .str (toText name))]

def handleSetNodeWorkerVariable (errorText : Bytes → String) (id : Bytes) (incoming : Incoming) :
    Except Response GarageRequest := do
  let id ← nodeParam id
  let req ← decodeNodeBody errorText (struct setWorkerVariableFields) {} incoming
  let name := trimSpace (bytes req.variableName)
  let value := trimSpace (bytes req.value)
  if name = [] ∨ value = [] then throw (writeJSONError 400 "variable and value are required")
  else if !(settableWorkerVariables.map bytes).contains name then
    throw (writeJSONError 400 ("unsupported worker variable: " ++ toText name))
  else
    return post (bytes "/v2/SetWorkerVariable?node=" ++ queryEscape (nodeTarget id req.allNodes))
      (some (.complete (JsonWriter.document JsonWriter.marshal (variableDocument name value))))

def handleCreateNodeSnapshot (errorText : Bytes → String) (id : Bytes) (incoming : Incoming) :
    Except Response GarageRequest := do
  let id ← nodeParam id
  let allNodes ← decodeNodeBody errorText (struct [("allNodes", bool)]) false incoming
  return post (bytes "/v2/CreateMetadataSnapshot?node=" ++ queryEscape (nodeTarget id allNodes)) none

/-! ## What is meant -/

inductive Proxied where
  | getBucket (id : Bytes)
  | updateBucket (id : Bytes) (body : Incoming)
  | deleteBucket (id : Bytes)
  | inspectObject (id query : Bytes)
  | getKey (id query : Bytes)
  | updateKey (id : Bytes) (body : Incoming)
  | deleteKey (id : Bytes)
  | getAdminToken (id : Bytes)
  | updateAdminToken (id : Bytes) (body : Incoming)
  | deleteAdminToken (id : Bytes)
  | getNode (id : Bytes)
  | getNodeStats (id : Bytes)
  | getNodeWorkerVariables (id : Bytes)
  | listNodeWorkers (id : Bytes)
  | setNodeWorkerVariable (id : Bytes) (body : Incoming)
  | createNodeSnapshot (id : Bytes) (body : Incoming)

namespace Proxied

/-- What Garage is asked, or the response that refuses it. -/
def ask (errorText : Bytes → String) : Proxied → Except Response GarageRequest
  | getBucket id => handleGetBucket id
  | updateBucket id body => handleUpdateBucket id body
  | deleteBucket id => handleDeleteBucket id
  | inspectObject id query => handleInspectObject id query
  | getKey id query => handleGetKey id query
  | updateKey id body => handleUpdateKey id body
  | deleteKey id => handleDeleteKey id
  | getAdminToken id => handleGetAdminToken id
  | updateAdminToken id body => handleUpdateAdminToken id body
  | deleteAdminToken id => handleDeleteAdminToken id
  | getNode id => handleGetNode id
  | getNodeStats id => handleGetNodeStats id
  | getNodeWorkerVariables id => handleGetNodeWorkerVariables id
  | listNodeWorkers id => handleListNodeWorkers id
  | setNodeWorkerVariable id body => handleSetNodeWorkerVariable errorText id body
  | createNodeSnapshot id body => handleCreateNodeSnapshot errorText id body

def endpoint : Proxied → String
  | getBucket _ => "/v2/GetBucketInfo"
  | updateBucket _ _ => "/v2/UpdateBucket"
  | deleteBucket _ => "/v2/DeleteBucket"
  | inspectObject _ _ => "/v2/InspectObject"
  | getKey _ _ => "/v2/GetKeyInfo"
  | updateKey _ _ => "/v2/UpdateKey"
  | deleteKey _ => "/v2/DeleteKey"
  | getAdminToken _ => "/v2/GetAdminTokenInfo"
  | updateAdminToken _ _ => "/v2/UpdateAdminToken"
  | deleteAdminToken _ => "/v2/DeleteAdminToken"
  | getNode _ => "/v2/GetNodeInfo"
  | getNodeStats _ => "/v2/GetNodeStatistics"
  | getNodeWorkerVariables _ => "/v2/GetWorkerVariable"
  | listNodeWorkers _ => "/v2/ListWorkers"
  | setNodeWorkerVariable _ _ => "/v2/SetWorkerVariable"
  | createNodeSnapshot _ _ => "/v2/CreateMetadataSnapshot"

end Proxied

/-- Whether a body says that all nodes are meant. -/
def saysAllNodes : Incoming → Bool
  | .complete data => (unmarshal (struct [("allNodes", bool)]) false data).getD false
  | .broken _ => false

/-- The parameters that Garage is to read. -/
def Proxied.params : Proxied → List (Bytes × Bytes)
  | getBucket id | updateBucket id _ | deleteBucket id | updateKey id _ | deleteKey id | getAdminToken id
  | updateAdminToken id _ | deleteAdminToken id => [(bytes "id", id)]
  | inspectObject id query => [(bytes "bucketId", id), (bytes "key", getValue (parseQuery query) (bytes "key"))]
  | getKey id query =>
    (bytes "id", id) :: if getValue (parseQuery query) (bytes "showSecretKey") = bytes "true" then
      [(bytes "showSecretKey", bytes "true")] else []
  | getNode id | getNodeStats id | getNodeWorkerVariables id | listNodeWorkers id => [(bytes "node", id)]
  | setNodeWorkerVariable id body | createNodeSnapshot id body => [(bytes "node", nodeTarget id (saysAllNodes body))]

/-- What an id has to be. -/
def Proxied.IdValid : Proxied → Prop
  | getBucket _ | updateBucket _ _ | deleteBucket _ | getKey _ _ | updateKey _ _ | deleteKey _ => True
  | inspectObject id _ => id.length = bucketIDHexLen ∧ isHexID id = true
  | getAdminToken id | updateAdminToken id _ | deleteAdminToken id => isHexID id = true
  | getNode id | getNodeStats id | getNodeWorkerVariables id | listNodeWorkers id | setNodeWorkerVariable id _
  | createNodeSnapshot id _ => isHexID id = true ∨ id = bytes "self"

/-- The endpoint of the request, and what its query reads. -/
def AsMeant (g : GarageRequest) (endpoint : String) (params : List (Bytes × Bytes)) : Prop :=
  ∃ query, g.path = bytes endpoint ++ question :: query ∧ question ∉ bytes endpoint ∧ parseQuery query = params

/-! ## Queries -/

theorem spells_name {name : Bytes} (h : name.all isUnreserved = true) : formEncode isUnreserved name = name := by
  rw [formEncode]
  calc name.flatMap (formByte isUnreserved) = name.flatMap fun b => [b] := by
        refine List.flatMap_congr fun b hb => ?_
        have hkept := List.all_eq_true.mp h b hb
        rw [formByte, if_neg, if_pos hkept]
        rintro rfl
        exact absurd hkept (by decide)
    _ = name := List.flatMap_singleton' name

theorem parseQuery_id {name : Bytes} (hname : name.all isUnreserved = true) (id : Bytes) :
    parseQuery (name ++ equals :: queryEscape id) = [(name, id)] := by
  have hread : parseQuery (encodeValues [(name, id)]) = [(name, id)] :=
    parseQuery_encodeValues (show 1 ≤ maxQueryParams by decide)
  rwa [encodeValues, List.map_singleton, joinPairs, List.map_singleton, List.intercalate_singleton,
    spells_name hname] at hread

theorem asMeant_id {method start endpoint name : String} {body : Option Incoming}
    (hstart : bytes start = bytes endpoint ++ question :: (bytes name ++ [equals])) (hend : question ∉ bytes endpoint)
    (hname : (bytes name).all isUnreserved = true) (id : Bytes) :
    AsMeant ⟨method, bytes start ++ queryEscape id, body⟩ endpoint [(bytes name, id)] := by
  refine ⟨bytes name ++ equals :: queryEscape id, ?_, hend, parseQuery_id hname id⟩
  rw [hstart]
  simp

/-! ## Refusals -/

section

variable {ε α β : Type} {x : Except ε α} {f : α → Except ε β}

theorem bind_ok {b : β} : x >>= f = .ok b ↔ ∃ a, x = .ok a ∧ f a = .ok b := by
  cases x with
  | error e => exact iff_of_false (fun h => by cases h) fun ⟨_, h, _⟩ => by cases h
  | ok a =>
    constructor
    · exact fun h => ⟨a, rfl, h⟩
    · rintro ⟨_, ⟨⟩, h⟩
      exact h

theorem bind_error {e : ε} : x >>= f = .error e ↔ x = .error e ∨ ∃ a, x = .ok a ∧ f a = .error e := by
  cases x with
  | error e' =>
    constructor
    · rintro ⟨⟩
      exact .inl rfl
    · rintro (⟨⟨⟩⟩ | ⟨_, h, _⟩)
      · rfl
      · cases h
  | ok a =>
    constructor
    · exact fun h => .inr ⟨a, rfl, h⟩
    · rintro (h | ⟨_, ⟨⟩, h⟩)
      · cases h
      · exact h

end

/-- A refusal that says what is wrong with the request. -/
def Refusal (resp : Response) : Prop := resp.status = 413 ∨ resp.status = 400

theorem hexIDParam_ok {id id' : Bytes} {what : String} {also : List String} (h : hexIDParam id what also = .ok id') :
    id' = id ∧ (isHexID id = true ∨ id ∈ also.map bytes) := by
  unfold hexIDParam at h
  split_ifs at h with hid
  rw [Bool.or_eq_true, List.contains_iff_mem] at hid
  exact ⟨(Except.ok.inj h).symm, hid⟩

theorem hexIDParam_error {id : Bytes} {what : String} {also : List String} {resp : Response}
    (h : hexIDParam id what also = .error resp) : Refusal resp := by
  unfold hexIDParam at h
  split_ifs at h
  obtain rfl := Except.error.inj h
  exact .inr rfl

theorem nodeParam_ok {id id' : Bytes} (h : nodeParam id = .ok id') :
    id' = id ∧ (isHexID id = true ∨ id = bytes "self") := by
  obtain ⟨heq, hid⟩ := hexIDParam_ok h
  rw [List.map_singleton, List.mem_singleton] at hid
  exact ⟨heq, hid⟩

theorem adminTokenIDParam_ok {id id' : Bytes} (h : adminTokenIDParam id = .ok id') :
    id' = id ∧ isHexID id = true := by
  obtain ⟨heq, hid⟩ := hexIDParam_ok h
  exact ⟨heq, hid.resolve_right List.not_mem_nil⟩

theorem exactHexIDParam_ok {id id' : Bytes} {what : String} {length : ℕ}
    (h : exactHexIDParam id what length = .ok id') : id' = id ∧ id.length = length ∧ isHexID id = true := by
  unfold exactHexIDParam at h
  split_ifs at h with hid
  exact ⟨(Except.ok.inj h).symm, hid⟩

theorem exactHexIDParam_error {id : Bytes} {what : String} {length : ℕ} {resp : Response}
    (h : exactHexIDParam id what length = .error resp) : Refusal resp := by
  unfold exactHexIDParam at h
  split_ifs at h
  obtain rfl := Except.error.inj h
  exact .inr rfl

section decodeNodeBody

variable {errorText : Bytes → String} {α : Type} {dec : Decoder α} {zero : α} {incoming : Incoming}

theorem decodeNodeBody_ok {a : α} (h : decodeNodeBody errorText dec zero incoming = .ok a) :
    ∃ data, incoming = .complete data ∧ data.length ≤ maxNodeRequestBody ∧
      (trimSpace data = [] ∧ a = zero ∨ unmarshal dec zero data = some a) := by
  unfold decodeNodeBody at h
  split_ifs at h with hlong
  cases incoming with
  | broken => cases h
  | complete data =>
    refine ⟨data, rfl, Nat.not_lt.mp hlong, ?_⟩
    dsimp only at h
    split_ifs at h with hblank
    · exact .inl ⟨hblank, (Except.ok.inj h).symm⟩
    · cases hread : unmarshal dec zero data with
      | none => rw [hread] at h; cases h
      | some v =>
        rw [hread] at h
        exact .inr (congrArg some (Except.ok.inj h))

theorem decodeNodeBody_error {resp : Response} (h : decodeNodeBody errorText dec zero incoming = .error resp) :
    Refusal resp := by
  unfold decodeNodeBody at h
  split_ifs at h with hlong
  · obtain rfl := Except.error.inj h
    exact .inr rfl
  · cases incoming with
    | broken =>
      obtain rfl := Except.error.inj h
      exact .inr rfl
    | complete data =>
      dsimp only at h
      split_ifs at h
      cases hread : unmarshal dec zero data with
      | none =>
        rw [hread] at h
        obtain rfl := Except.error.inj h
        exact .inr rfl
      | some v => rw [hread] at h; cases h

end decodeNodeBody

/-! ## Every request -/

theorem asMeant_values {method endpoint : String} {body : Option Incoming} {pairs : List (Bytes × Bytes)}
    (hend : question ∉ bytes endpoint) (hlen : pairs.length ≤ maxQueryParams) :
    AsMeant ⟨method, bytes endpoint ++ question :: encodeValues pairs, body⟩ endpoint pairs :=
  ⟨_, rfl, hend, parseQuery_encodeValues hlen⟩

theorem encode_two {id : Bytes} {name other value : Bytes} (hname : name.all isUnreserved = true)
    (hother : other.all isUnreserved = true) (hvalue : value.all isUnreserved = true) :
    encodeValues [(name, id), (other, value)] =
      name ++ equals :: (queryEscape id ++ ampersand :: (other ++ equals :: value)) := by
  rw [encodeValues, List.map_cons, List.map_singleton, spells_name hname, spells_name hother, spells_name hvalue,
    joinPairs, List.map_cons, List.map_singleton, List.intercalate_cons_cons, List.intercalate_singleton, queryEscape]
  simp

theorem asMeant_getKey {id query : Bytes} {g : GarageRequest} (h : handleGetKey id query = .ok g) :
    AsMeant g "/v2/GetKeyInfo" (Proxied.getKey id query).params := by
  obtain rfl := Except.ok.inj h
  have hstart : bytes "/v2/GetKeyInfo?id=" = bytes "/v2/GetKeyInfo" ++ question :: (bytes "id" ++ [equals]) := rfl
  have hend : question ∉ bytes "/v2/GetKeyInfo" := by decide +kernel
  have hid : (bytes "id").all isUnreserved = true := by decide +kernel
  by_cases hshow : getValue (parseQuery query) (bytes "showSecretKey") = bytes "true"
  · have hmore : bytes "&showSecretKey=true" = ampersand :: (bytes "showSecretKey" ++ equals :: bytes "true") := rfl
    have hquery : bytes "/v2/GetKeyInfo?id=" ++ queryEscape id ++ bytes "&showSecretKey=true" =
        bytes "/v2/GetKeyInfo" ++
          question :: encodeValues [(bytes "id", id), (bytes "showSecretKey", bytes "true")] := by
      rw [encode_two hid (by decide +kernel) (by decide +kernel), hstart, hmore]
      simp
    rw [Proxied.params, if_pos hshow, if_pos hshow, get, hquery]
    exact asMeant_values hend (show 2 ≤ maxQueryParams by decide)
  · rw [Proxied.params, if_neg hshow, if_neg hshow, get, List.append_nil]
    exact asMeant_id hstart hend hid id

theorem handleInspectObject_ok {id query : Bytes} {g : GarageRequest} (h : handleInspectObject id query = .ok g) :
    (id.length = bucketIDHexLen ∧ isHexID id = true) ∧
      AsMeant g "/v2/InspectObject" (Proxied.inspectObject id query).params := by
  obtain ⟨id', hid, hrest⟩ := bind_ok.mp h
  obtain ⟨rfl, hvalid⟩ := exactHexIDParam_ok hid
  dsimp only at hrest
  split_ifs at hrest
  obtain rfl := Except.ok.inj hrest
  have hstart : bytes "/v2/InspectObject?" = bytes "/v2/InspectObject" ++ [question] := rfl
  rw [hstart, List.append_assoc]
  exact ⟨hvalid, asMeant_values (by decide +kernel) (show 2 ≤ maxQueryParams by decide)⟩

/-- A reader that only knows `allNodes` makes the same of it. -/
theorem projects_allNodes :
    Projects SetWorkerVariableRequest.allNodes setWorkerVariableFields [("allNodes", bool)] := by
  refine .drop (fun r r' v h => ?_) (.drop (fun r r' v h => ?_) (.keep (fun r r' v h => ?_) .nil)) <;>
    obtain ⟨field, hfield, rfl⟩ := Option.map_eq_some_iff.mp h
  · rfl
  · rfl
  · exact hfield

theorem saysAllNodes_blank {data : Bytes} (h : trimSpace data = []) : saysAllNodes (.complete data) = false := by
  rw [saysAllNodes, unmarshal, Json.parse_blank h]
  rfl

/-- What is sent on when a variable is set: the node, and a document with the variable and the value. -/
theorem handleSetNodeWorkerVariable_ok {errorText : Bytes → String} {id : Bytes} {incoming : Incoming}
    {g : GarageRequest} (h : handleSetNodeWorkerVariable errorText id incoming = .ok g) :
    (isHexID id = true ∨ id = bytes "self") ∧ ∃ data req, incoming = .complete data ∧
      data.length ≤ maxNodeRequestBody ∧ unmarshal (struct setWorkerVariableFields) {} data = some req ∧
      trimSpace (bytes req.value) ≠ [] ∧ trimSpace (bytes req.variableName) ∈ settableWorkerVariables.map bytes ∧
      g = post (bytes "/v2/SetWorkerVariable?node=" ++ queryEscape (nodeTarget id req.allNodes))
        (some (.complete (JsonWriter.document JsonWriter.marshal
          (variableDocument (trimSpace (bytes req.variableName)) (trimSpace (bytes req.value)))))) := by
  obtain ⟨id', hid, hrest⟩ := bind_ok.mp h
  obtain ⟨rfl, hvalid⟩ := nodeParam_ok hid
  obtain ⟨req, hbody, hrequest⟩ := bind_ok.mp hrest
  obtain ⟨data, rfl, hlen, hread⟩ := decodeNodeBody_ok hbody
  dsimp only at hrequest
  split_ifs at hrequest with hmissing hsettable
  rw [not_or] at hmissing
  rw [Bool.not_eq_true', Bool.not_eq_false, List.contains_iff_mem] at hsettable
  have hreq : unmarshal (struct setWorkerVariableFields) {} data = some req := by
    refine hread.resolve_left ?_
    rintro ⟨-, rfl⟩
    exact hmissing.1 rfl
  exact ⟨hvalid, data, req, rfl, hlen, hreq, hmissing.2, hsettable, (Except.ok.inj hrequest).symm⟩

theorem handleCreateNodeSnapshot_ok {errorText : Bytes → String} {id : Bytes} {incoming : Incoming}
    {g : GarageRequest} (h : handleCreateNodeSnapshot errorText id incoming = .ok g) :
    (isHexID id = true ∨ id = bytes "self") ∧ ∃ data, incoming = .complete data ∧ data.length ≤ maxNodeRequestBody ∧
      (trimSpace data ≠ [] → (unmarshal (struct [("allNodes", bool)]) false data).isSome = true) ∧
      g = post (bytes "/v2/CreateMetadataSnapshot?node=" ++ queryEscape (nodeTarget id (saysAllNodes incoming)))
        none := by
  obtain ⟨id', hid, hrest⟩ := bind_ok.mp h
  obtain ⟨rfl, hvalid⟩ := nodeParam_ok hid
  obtain ⟨allNodes, hbody, hrequest⟩ := bind_ok.mp hrest
  obtain ⟨data, rfl, hlen, hread⟩ := decodeNodeBody_ok hbody
  have hsaid : saysAllNodes (.complete data) = allNodes := by
    obtain ⟨hblank, rfl⟩ | hread := hread
    · exact saysAllNodes_blank hblank
    · rw [saysAllNodes, hread]
      rfl
  rw [hsaid]
  refine ⟨hvalid, data, rfl, hlen, fun hne => ?_, (Except.ok.inj hrequest).symm⟩
  rw [hread.resolve_left fun hblank => hne hblank.1]
  rfl

theorem ask_error {errorText : Bytes → String} {r : Proxied} {resp : Response}
    (h : r.ask errorText = .error resp) : Refusal resp := by
  cases r with
  | inspectObject id query =>
    obtain h | ⟨_, -, h⟩ := bind_error.mp h
    · exact exactHexIDParam_error h
    · dsimp only at h
      split_ifs at h
      · obtain rfl := Except.error.inj h
        exact .inr rfl
      · cases h
  | updateAdminToken id body =>
    obtain h | ⟨_, -, h⟩ := bind_error.mp h
    · exact hexIDParam_error h
    · obtain h | ⟨_, -, h⟩ := bind_error.mp h
      · exact readRequestBody_error h
      · cases h
  | setNodeWorkerVariable id body =>
    obtain h | ⟨_, -, h⟩ := bind_error.mp h
    · exact hexIDParam_error h
    · obtain h | ⟨_, -, h⟩ := bind_error.mp h
      · exact decodeNodeBody_error h
      · dsimp only at h
        split_ifs at h
        · obtain rfl := Except.error.inj h
          exact .inr rfl
        · obtain rfl := Except.error.inj h
          exact .inr rfl
        · cases h
  | createNodeSnapshot id body =>
    obtain h | ⟨_, -, h⟩ := bind_error.mp h
    · exact hexIDParam_error h
    · obtain h | ⟨_, -, h⟩ := bind_error.mp h
      · exact decodeNodeBody_error h
      · cases h
  | getAdminToken | deleteAdminToken | getNode | getNodeStats | getNodeWorkerVariables | listNodeWorkers =>
    obtain h | ⟨_, -, h⟩ := bind_error.mp h
    · exact hexIDParam_error h
    · cases h
  | getBucket | updateBucket | deleteBucket | getKey | updateKey | deleteKey => cases h

theorem question_notMem_endpoint (r : Proxied) : question ∉ bytes r.endpoint := by
  cases r <;> (dsimp only [Proxied.endpoint]; decide +kernel)

/-- **Garage is asked what is meant.** Whatever the id and the body, either the request is refused with a 400 or a 413
and Garage is asked nothing, or the id is of the kind that Garage takes there, and Garage is asked at the endpoint of
the route with a query that reads exactly as the parameters meant. -/
theorem proxied_as_meant (errorText : Bytes → String) (r : Proxied) :
    (∃ resp, r.ask errorText = .error resp ∧ Refusal resp) ∨
      ∃ g, r.ask errorText = .ok g ∧ r.IdValid ∧ AsMeant g r.endpoint r.params := by
  cases hask : r.ask errorText with
  | error resp => exact .inl ⟨resp, rfl, ask_error hask⟩
  | ok g =>
    refine .inr ⟨g, rfl, ?_⟩
    cases r with
    | getBucket id | updateBucket id _ | deleteBucket id | updateKey id _ | deleteKey id =>
      obtain rfl := Except.ok.inj hask
      exact ⟨trivial,
        asMeant_id (by dsimp only [Proxied.endpoint]; rfl) (question_notMem_endpoint _) (by decide +kernel) id⟩
    | getKey id query => exact ⟨trivial, asMeant_getKey hask⟩
    | inspectObject id query => exact handleInspectObject_ok hask
    | getAdminToken id | deleteAdminToken id =>
      obtain ⟨id', hid, hrest⟩ := bind_ok.mp hask
      obtain ⟨rfl, hvalid⟩ := adminTokenIDParam_ok hid
      obtain rfl := Except.ok.inj hrest
      exact ⟨hvalid,
        asMeant_id (by dsimp only [Proxied.endpoint]; rfl) (question_notMem_endpoint _) (by decide +kernel) _⟩
    | updateAdminToken id body =>
      obtain ⟨id', hid, hrest⟩ := bind_ok.mp hask
      obtain ⟨rfl, hvalid⟩ := adminTokenIDParam_ok hid
      obtain ⟨data, -, hrequest⟩ := bind_ok.mp hrest
      obtain rfl := Except.ok.inj hrequest
      exact ⟨hvalid,
        asMeant_id (by dsimp only [Proxied.endpoint]; rfl) (question_notMem_endpoint _) (by decide +kernel) _⟩
    | getNode id | getNodeStats id | getNodeWorkerVariables id | listNodeWorkers id =>
      obtain ⟨id', hid, hrest⟩ := bind_ok.mp hask
      obtain ⟨rfl, hvalid⟩ := nodeParam_ok hid
      obtain rfl := Except.ok.inj hrest
      exact ⟨hvalid,
        asMeant_id (by dsimp only [Proxied.endpoint]; rfl) (question_notMem_endpoint _) (by decide +kernel) _⟩
    | setNodeWorkerVariable id body =>
      obtain ⟨hvalid, data, req, rfl, -, hreq, -, -, rfl⟩ := handleSetNodeWorkerVariable_ok hask
      have hsaid : saysAllNodes (.complete data) = req.allNodes := by
        rw [saysAllNodes, projects_allNodes.unmarshal (by decide +kernel) hreq]
        rfl
      rw [Proxied.params, hsaid]
      exact ⟨hvalid,
        asMeant_id (by dsimp only [Proxied.endpoint]; rfl) (question_notMem_endpoint _) (by decide +kernel) _⟩
    | createNodeSnapshot id body =>
      obtain ⟨hvalid, data, rfl, -, -, rfl⟩ := handleCreateNodeSnapshot_ok hask
      exact ⟨hvalid,
        asMeant_id (by dsimp only [Proxied.endpoint]; rfl) (question_notMem_endpoint _) (by decide +kernel) _⟩

end GarageConsole.Garage
