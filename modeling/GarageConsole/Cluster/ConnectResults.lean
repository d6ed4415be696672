import GarageConsole.Cluster.Connect
import GarageConsole.Foundations.GoJson
import GarageConsole.Foundations.JsonWriter
import GarageConsole.Foundations.Systems
import GarageConsole.Garage.Client

/-! # What connecting the nodes came to

The dialog sends the peers of its text to the backend, which sends them to Garage and hands Garage's answers back in
the order of the peers. The dialog pairs them by position again. Neither its text nor its session can change while
a request is under way, so the results it shows are Garage's answers about the peers of the text above them
(`results_belong`).
-/

namespace GarageConsole.Cluster

open Foundations Foundations.Text Foundations.Utf16 Foundations.GoJson Foundations.Calls Foundations.JsonWriter
  Foundations.Systems
open Garage (GarageCall GarageProg GarageLog Incoming Reply Response Body forwardResponse readRequestBody
  writeJSONError)

set_option autoImplicit false

/-! ## The backend -/

def maxConnectBodyBytes : ℕ := 16384

def connectNodesRequest : Decoder (GoSlice String) := struct [("nodes", reusedSlice "" string)]

structure ConnectNodeResult where
  success : Bool := false
  error : Option String := none
  deriving DecidableEq

def connectNodeResult : Decoder ConnectNodeResult := struct
  [("success", fun r v => (bool r.success v).map ({ r with success := · })),
    ("error", fun r v => (pointer "" string r.error v).map ({ r with error := · }))]

def ConnectNodeResult.json (r : ConnectNodeResult) : Json :=
  .obj [("success", .bool r.success), ("error", r.error.elim .null .str)]

/-- The call to Garage, with its body. -/
structure ConnectCall where
  body : Bytes

instance : GarageCall ConnectCall := ⟨fun _ => "/v2/ConnectClusterNodes"⟩

def nodesDocument (nodes : List String) : Json := .arr (nodes.map .str)

/-- The results in Garage's answer, as many as there are nodes. -/
def connectResults (nodes : List String) (body : Option Bytes) : Except Response (List ConnectNodeResult) :=
  match body.bind (decodeFirst (reusedSlice {} connectNodeResult) {}) with
  | none => .error (writeJSONError 502 "cannot decode Garage response")
  | some results =>
    if (results.items.getD []).length ≠ nodes.length then
      .error (writeJSONError 502 "Garage response does not match the requested nodes")
    else .ok (results.items.getD [])

def connectResponse (nodes : List String) : Reply → Response
  | .unreachable => ⟨502, .text "Bad Gateway"⟩
  | .answered status contentType body =>
    if status ≠ 200 then forwardResponse (.answered status contentType body)
    else match connectResults nodes body with
      | .error response => response
      | .ok results => ⟨200, .json (.arr (results.map ConnectNodeResult.json))⟩

def handleConnectNodes (incoming : Incoming) : GarageProg ConnectCall Response :=
  match readRequestBody maxConnectBodyBytes incoming with
  | .error response => return response
  | .ok data =>
    match unmarshal connectNodesRequest {} data with
    | none => return writeJSONError 400 "invalid JSON body"
    | some req =>
      let nodes := req.items.getD []
      if validateConnectNodes (nodes.map bytes) ≠ "" then
        return writeJSONError 400 (validateConnectNodes (nodes.map bytes))
      else do
        let reply ← (Prog.send ⟨document marshal (nodesDocument nodes)⟩ : GarageProg ConnectCall Reply)
        return connectResponse nodes reply

/-! ## The dialog -/

namespace Form

structure ConnectResultRow where
  peer : Units
  success : Bool
  error : Option String
  deriving DecidableEq

def missingResult : String := "応答に結果が含まれていません"

def pairConnectResults (peers : List Units) (results : List ConnectNodeResult) : List ConnectResultRow :=
  peers.mapIdx fun i peer =>
    match results[i]? with
    | none => ⟨peer, false, some missingResult⟩
    | some r => ⟨peer, r.success, if r.success then none else r.error⟩

inductive ConnectOutcome where
  | all
  | partly
  | none
  deriving DecidableEq

def connectOutcome (rows : List ConnectResultRow) : ConnectOutcome :=
  let ok := (rows.filter ConnectResultRow.success).length
  if ok = 0 then .none else if ok = rows.length then .all else .partly

/-- The text of the request. -/
def requestBody (peers : List Units) : Bytes :=
  document (stringify 0) (.obj [("nodes", nodesDocument (peers.map asText))])

/-- A result as the page reads it. -/
def readResult (v : Json) : ConnectNodeResult :=
  match v with
  | .obj members =>
    { success := members.lookup "success" = some (.bool true)
      error := match members.lookup "error" with
        | some (.str message) => some message
        | _ => none }
  | _ => {}

/-- The results in a response, if it is a success and its body an array. -/
def received (resp : Response) : Option (List ConnectNodeResult) :=
  if resp.status < 200 ∨ 300 ≤ resp.status then none
  else
    let value := match resp.body with
      | .json v => Json.parse (document marshal v ++ [0x0A])
      | .forwarded _ (some body) => Json.parse body
      | _ => none
    match value with
    | some (.arr vs) => some (vs.map readResult)
    | _ => none

structure Pending where
  peers : List Units
  session : ℕ

structure Dialog where
  isOpen : Bool := false
  text : Units := []
  rows : Option (List ConnectResultRow) := none
  session : ℕ := 0
  pending : Option Pending := none
  /-- What the backend asked Garage, and was answered, for the request that was answered last. -/
  asked : GarageLog ConnectCall := []

inductive DialogAction where
  | setOpen
  | close
  | type (text : Units)
  | submit
  | respond (log : GarageLog ConnectCall) (resp : Response)

def Dialog.canSubmit (s : Dialog) : Bool :=
  let parsed := parseConnectInput s.text
  parsed.peers ≠ [] && parsed.errors = [] && s.pending.isNone

/-- One step of the dialog. While a request is under way the text is locked and closing does nothing. -/
def Dialog.step (s : Dialog) : DialogAction → Option Dialog
  | .setOpen => some { s with isOpen := true }
  | .close =>
    if s.pending.isSome then some s
    else some { s with isOpen := false, text := [], rows := none, session := s.session + 1, pending := none }
  | .type text => if s.isOpen && s.pending.isNone then some { s with text, rows := none } else none
  | .submit =>
    if s.isOpen && s.canSubmit then
      some { s with rows := none, pending := some ⟨(parseConnectInput s.text).peers, s.session⟩ }
    else none
  | .respond log resp =>
    match s.pending with
    | none => none
    | some p =>
      match received resp with
      | none => some { s with pending := none, asked := log }
      | some results =>
        some { s with
          pending := none
          asked := log
          rows := if s.session = p.session then some (pairConnectResults p.peers results) else s.rows }

/-- The backend asked Garage this and gave this response to the request that is under way. -/
def Answers (s : Dialog) : DialogAction → Prop
  | .respond log resp => ∀ p, s.pending = some p → Runs (handleConnectNodes (.complete (requestBody p.peers))) log resp
  | _ => True

def connectDialog : System Dialog DialogAction where
  init s := s = {}
  step s a t := s.step a = some t

/-! ## The way there and back -/

theorem readResult_json (r : ConnectNodeResult) : readResult r.json = r := by
  obtain ⟨success, error⟩ := r
  cases success <;> cases error <;> rfl

theorem received_json (results : List ConnectNodeResult) :
    received ⟨200, .json (.arr (results.map ConnectNodeResult.json))⟩ = some results := by
  have hread : (results.map ConnectNodeResult.json).map readResult = results := by
    rw [List.map_map]
    exact List.map_id'' readResult_json results
  have hok : ¬(200 < 200 ∨ 300 ≤ 200) := by decide
  rw [received, if_neg hok]
  dsimp only
  rw [parse_document_line]
  exact congrArg some hread

theorem bytes_asText (s : Units) : bytes (asText s) = sent s := by
  rw [asText, bytes, String.toList_ofList]
  rfl

theorem items_strings (strs : List String) : items "" string [] (strs.map .str) = some strs := by
  induction strs with
  | nil => rfl
  | cons s strs ih =>
    rw [List.map_cons, items]
    simp [string, ih]

theorem decode_requestBody {peers : List Units} (hne : peers ≠ []) :
    unmarshal connectNodesRequest {} (requestBody peers) = some ⟨some (peers.map asText), []⟩ := by
  have hdepth : (Json.obj [("nodes", nodesDocument (peers.map asText))]).depth ≤ maxNestingDepth := by
    have hitems : ∀ strs : List String, Json.depthItems (strs.map .str) = 0 := by
      intro strs
      induction strs with
      | nil => rfl
      | cons s strs ih => simp [Json.depthItems, Json.depth, ih]
    rw [Json.depth, Json.depthMembers, Json.depthMembers, nodesDocument, Json.depth, hitems]
    decide
  rw [unmarshal, requestBody, parse_document]
  show (if _ then _ else _) = _
  rw [if_pos hdepth, connectNodesRequest, struct_obj, List.foldlM_cons, storeMember_singleton, if_pos rfl]
  have hslice : reusedSlice "" string {} (nodesDocument (peers.map asText)) =
      some ⟨some (peers.map asText), []⟩ := by
    cases peers with
    | nil => exact absurd rfl hne
    | cons peer peers =>
      have hitems := items_strings ((peer :: peers).map asText)
      show ((items "" string [] (((peer :: peers).map asText).map Json.str)).map _) = _
      rw [hitems]
      rfl
  rw [hslice]
  rfl

/-- What the backend does with what the dialog sends: it asks Garage once, unless the request is too large. -/
theorem handleConnectNodes_requestBody {peers : List Units} (hvalid : validateConnectNodes (peers.map sent) = "") :
    handleConnectNodes (.complete (requestBody peers)) =
      if maxConnectBodyBytes < (requestBody peers).length then
        return writeJSONError 413
          ("request body too large (limit " ++ toString maxConnectBodyBytes ++ " bytes)")
      else do
        let reply ← (Prog.send ⟨document marshal (nodesDocument (peers.map asText))⟩ : GarageProg ConnectCall Reply)
        return connectResponse (peers.map asText) reply := by
  have hne : peers ≠ [] := fun hnil => (validate_iff.mp hvalid).1 (by rw [hnil]; rfl)
  have hbytes : (peers.map asText).map bytes = peers.map sent := by
    rw [List.map_map]
    exact List.map_congr_left fun s _ => bytes_asText s
  have hpass : ¬validateConnectNodes ((peers.map asText).map bytes) ≠ "" := by
    rw [hbytes, hvalid]
    exact not_not.mpr rfl
  unfold handleConnectNodes
  by_cases hlong : maxConnectBodyBytes < (requestBody peers).length
  · have hread : readRequestBody maxConnectBodyBytes (.complete (requestBody peers)) = .error (writeJSONError 413
        ("request body too large (limit " ++ toString maxConnectBodyBytes ++ " bytes)")) := by
      rw [readRequestBody]
      exact if_pos hlong
    rw [hread, if_pos hlong]
  · have hread : readRequestBody maxConnectBodyBytes (.complete (requestBody peers)) = .ok (requestBody peers) := by
      rw [readRequestBody]
      exact if_neg hlong
    rw [hread, if_neg hlong]
    dsimp only
    rw [decode_requestBody hne]
    dsimp only [Option.getD_some]
    rw [if_neg hpass]

theorem runs_requestBody {peers : List Units} (hvalid : validateConnectNodes (peers.map sent) = "")
    {log : GarageLog ConnectCall} {resp : Response}
    (h : Runs (handleConnectNodes (.complete (requestBody peers))) log resp) :
    resp.status = 413 ∨ ∃ reply, log = [⟨⟨document marshal (nodesDocument (peers.map asText))⟩, reply⟩] ∧
      resp = connectResponse (peers.map asText) reply := by
  rw [handleConnectNodes_requestBody hvalid] at h
  split_ifs at h
  · obtain ⟨-, rfl⟩ := runs_ret.mp h
    exact .inl rfl
  · obtain ⟨reply, rest, rfl, hret⟩ := runs_call.mp h
    obtain ⟨rfl, rfl⟩ := runs_ret.mp hret
    exact .inr ⟨reply, rfl, rfl⟩

/-- Garage's answer holds these results, one for each node. -/
def GarageAnswered (nodes : List String) (reply : Reply) (results : List ConnectNodeResult) : Prop :=
  ∃ contentType body g, reply = .answered 200 contentType (some body) ∧
    decodeFirst (reusedSlice {} connectNodeResult) {} body = some g ∧ results = g.items.getD [] ∧
    results.length = nodes.length

/-- A success of Garage's that is not 200 is handed on as it is, and the page reads these results in it. -/
def ForwardedUnread (reply : Reply) (results : List ConnectNodeResult) : Prop :=
  ∃ status contentType body, reply = .answered status contentType body ∧ status ≠ 200 ∧
    received (forwardResponse reply) = some results

theorem received_connectResponse {nodes : List String} {reply : Reply} {results : List ConnectNodeResult}
    (h : received (connectResponse nodes reply) = some results) :
    GarageAnswered nodes reply results ∨ ForwardedUnread reply results := by
  cases reply with
  | unreachable => cases h
  | answered status contentType body =>
    by_cases hstatus : status = 200
    · subst hstatus
      refine .inl ?_
      rw [connectResponse, if_neg (not_not.mpr rfl), connectResults] at h
      cases hdecode : body.bind (decodeFirst (reusedSlice {} connectNodeResult) {}) with
      | none =>
        rw [hdecode] at h
        cases h
      | some g =>
        rw [hdecode] at h
        dsimp only at h
        split_ifs at h with hlength
        · cases h
        · dsimp only at h
          rw [received_json] at h
          obtain ⟨text, rfl, hg⟩ := Option.bind_eq_some_iff.mp hdecode
          obtain rfl := Option.some.inj h
          exact ⟨contentType, text, g, rfl, hg, rfl, not_not.mp hlength⟩
    · rw [connectResponse, if_pos hstatus] at h
      exact .inr ⟨status, contentType, body, rfl, hstatus, h⟩

/-! ## The dialog belongs together -/

/-- These rows come from a response to the request that the text makes, for which Garage was asked this. -/
def Shows (text : Units) (log : GarageLog ConnectCall) (rows : List ConnectResultRow) : Prop :=
  ∃ resp results, Runs (handleConnectNodes (.complete (requestBody (parseConnectInput text).peers))) log resp ∧
    received resp = some results ∧ rows = pairConnectResults (parseConnectInput text).peers results

/-- The text makes a request that the backend takes. -/
def Ready (text : Units) : Prop := (parseConnectInput text).peers ≠ [] ∧ (parseConnectInput text).errors = []

structure DialogInv (s : Dialog) : Prop where
  shown : ∀ rows, s.rows = some rows → Ready s.text ∧ Shows s.text s.asked rows
  pending : ∀ p, s.pending = some p →
    Ready s.text ∧ p.peers = (parseConnectInput s.text).peers ∧ p.session = s.session ∧ s.rows = none

theorem DialogInv.step {s t : Dialog} {a : DialogAction} (h : DialogInv s) (hok : Answers s a)
    (hstep : s.step a = some t) : DialogInv t := by
  cases a with
  | setOpen =>
    cases hstep
    exact ⟨h.shown, h.pending⟩
  | close =>
    rw [Dialog.step] at hstep
    split_ifs at hstep
    · cases hstep
      exact h
    · cases hstep
      exact ⟨fun rows hrows => (by cases hrows), fun p hp => (by cases hp)⟩
  | type text =>
    rw [Dialog.step] at hstep
    split_ifs at hstep with hfree
    cases hstep
    rw [Bool.and_eq_true, Option.isNone_iff_eq_none] at hfree
    exact ⟨fun rows hrows => (by cases hrows), fun p hp => (by rw [hfree.2] at hp; cases hp)⟩
  | submit =>
    rw [Dialog.step] at hstep
    split_ifs at hstep with hcan
    cases hstep
    simp only [Dialog.canSubmit, Bool.and_eq_true, decide_eq_true_eq] at hcan
    refine ⟨fun rows hrows => (by cases hrows), fun p hp => ?_⟩
    obtain rfl := Option.some.inj hp
    exact ⟨hcan.2.1, rfl, rfl, rfl⟩
  | respond log resp =>
    rw [Dialog.step] at hstep
    cases hp : s.pending with
    | none =>
      rw [hp] at hstep
      cases hstep
    | some p =>
      obtain ⟨hready, hpeers, hsession, hrows⟩ := h.pending p hp
      have hrun := hok p hp
      rw [hp] at hstep
      dsimp only at hstep
      cases hreceived : received resp with
      | none =>
        rw [hreceived] at hstep
        cases hstep
        exact ⟨fun rows hr => (by rw [hrows] at hr; cases hr), fun q hq => by cases hq⟩
      | some results =>
        rw [hreceived] at hstep
        dsimp only at hstep
        rw [if_pos hsession.symm] at hstep
        cases hstep
        refine ⟨fun rows hr => ⟨hready, ?_⟩, fun q hq => by cases hq⟩
        obtain rfl := Option.some.inj hr
        exact ⟨resp, results, hpeers ▸ hrun, hreceived, by rw [hpeers]⟩

theorem dialogInv {s : Dialog} (h : Reachable connectDialog Answers s) : DialogInv s := by
  refine h.invariant ?_ fun _ _ _ hi hok hstep => hi.step hok hstep
  rintro s rfl
  exact ⟨fun rows hrows => (by cases hrows), fun p hp => (by cases hp)⟩

/-! ## What is shown -/

def rowOf (peer : Units) (r : ConnectNodeResult) : ConnectResultRow :=
  ⟨peer, r.success, if r.success then none else r.error⟩

theorem pairConnectResults_eq {peers : List Units} {results : List ConnectNodeResult}
    (hlength : results.length = peers.length) :
    pairConnectResults peers results = List.zipWith rowOf peers results := by
  refine List.ext_getElem (by simp [pairConnectResults, hlength]) fun i h₁ h₂ => ?_
  have hi : i < results.length := by simpa [pairConnectResults, hlength] using h₁
  simp [pairConnectResults, rowOf, List.getElem?_eq_getElem hi]

theorem filter_success {peers : List Units} {results : List ConnectNodeResult}
    (hlength : results.length = peers.length) :
    ((List.zipWith rowOf peers results).filter ConnectResultRow.success).length =
      (results.filter ConnectNodeResult.success).length := by
  induction peers generalizing results with
  | nil =>
    obtain rfl := List.eq_nil_of_length_eq_zero hlength
    rfl
  | cons peer peers ih =>
    cases results with
    | nil => cases hlength
    | cons r results =>
      have ih := ih (Nat.succ.inj hlength)
      rw [List.zipWith_cons_cons, List.filter_cons, List.filter_cons]
      cases hr : r.success with
      | true => simpa [rowOf, hr] using ih
      | false => simpa [rowOf, hr] using ih

theorem connectOutcome_eq {peers : List Units} {results : List ConnectNodeResult} (hne : peers ≠ [])
    (hlength : results.length = peers.length) :
    (connectOutcome (List.zipWith rowOf peers results) = .all ↔ ∀ r ∈ results, r.success = true) ∧
      (connectOutcome (List.zipWith rowOf peers results) = .none ↔ ∀ r ∈ results, r.success = false) := by
  have hall : (results.filter ConnectNodeResult.success).length = results.length ↔ ∀ r ∈ results, r.success = true :=
    List.length_filter_eq_length_iff
  have hnone : (results.filter ConnectNodeResult.success).length = 0 ↔ ∀ r ∈ results, r.success = false := by
    rw [List.length_eq_zero_iff, List.filter_eq_nil_iff]
    simp
  have hpos : 0 < peers.length := List.length_pos_of_ne_nil hne
  have hrows : (List.zipWith rowOf peers results).length = results.length := by simp [hlength]
  have houtcome : connectOutcome (List.zipWith rowOf peers results) =
      if (results.filter ConnectNodeResult.success).length = 0 then .none
      else if (results.filter ConnectNodeResult.success).length = results.length then .all else .partly := by
    rw [connectOutcome, filter_success hlength, hrows]
  rw [houtcome, ← hall, ← hnone]
  split_ifs with hzero hfull
  · exact ⟨iff_of_false (by decide) (by omega), iff_of_true rfl hzero⟩
  · exact ⟨iff_of_true rfl hfull, iff_of_false (by decide) hzero⟩
  · exact ⟨iff_of_false (by decide) hfull, iff_of_false (by decide) hzero⟩

/-- **The results shown belong to the text above them.** In every run of the dialog, whatever is typed, sent, answered
and closed in whatever order, shown rows stand for the peers of the text as it is, which was sent without errors. For
the request that was answered last the backend asked Garage to connect exactly these peers in this order, and the rows
are what Garage replied to this: if it was a 200, the row of a peer says what Garage said at its position, no answer is
missing, and the summary is "all" or "none" exactly when all connected or none did; if it was another success, they
pair the peers with the results that the page reads in it. -/
theorem results_belong {s : Dialog} (h : Reachable connectDialog Answers s) {rows : List ConnectResultRow}
    (hrows : s.rows = some rows) :
    let peers := (parseConnectInput s.text).peers
    peers ≠ [] ∧ (parseConnectInput s.text).errors = [] ∧ rows.map ConnectResultRow.peer = peers ∧
      ∃ garageBody reply results, s.asked = [⟨⟨garageBody⟩, reply⟩] ∧
        Json.parse garageBody = some (nodesDocument (peers.map asText)) ∧
        Runs (handleConnectNodes (.complete (requestBody peers))) s.asked
          (connectResponse (peers.map asText) reply) ∧
        rows = pairConnectResults peers results ∧
        (ForwardedUnread reply results ∨ GarageAnswered (peers.map asText) reply results ∧
          rows = List.zipWith rowOf peers results ∧
          (connectOutcome rows = .all ↔ ∀ r ∈ results, r.success = true) ∧
          (connectOutcome rows = .none ↔ ∀ r ∈ results, r.success = false)) := by
  obtain ⟨⟨hne, herrors⟩, resp, results, hrun, hreceived, rfl⟩ := (dialogInv h).shown rows hrows
  refine ⟨hne, herrors, ?_, ?_⟩
  · refine List.ext_getElem (by simp [pairConnectResults]) fun i h₁ h₂ => ?_
    simp only [pairConnectResults, List.getElem_map, List.getElem_mapIdx]
    split <;> rfl
  · rcases runs_requestBody (validate_sent herrors hne) hrun with hlarge | ⟨reply, hasked, rfl⟩
    · rw [received, if_pos (by omega)] at hreceived
      cases hreceived
    · refine ⟨_, reply, results, hasked, parse_document marshal _, hrun, rfl, ?_⟩
      rcases received_connectResponse hreceived with hanswered | hunread
      · have hlength : results.length = (parseConnectInput s.text).peers.length := by
          obtain ⟨_, _, _, -, -, -, hlength⟩ := hanswered
          rwa [List.length_map] at hlength
        rw [pairConnectResults_eq hlength]
        exact .inr ⟨hanswered, rfl, connectOutcome_eq hne hlength⟩
      · exact .inl hunread

def onePeer : Units := List.replicate 64 0x61 ++ utf16 "@host:3901"

def refusedReply : Reply :=
  .answered 200 "application/json" (some (bytes "[\x7b\"success\": false, \"error\": \"refused\"\x7d]"))

theorem results_belong_refused : ∃ s : Dialog, s.rows = some [⟨onePeer, false, some "refused"⟩] ∧
    let peers := (parseConnectInput s.text).peers
    peers ≠ [] ∧ (parseConnectInput s.text).errors = [] ∧
      [(⟨onePeer, false, some "refused"⟩ : ConnectResultRow)].map ConnectResultRow.peer = peers ∧
      ∃ garageBody results, s.asked = [⟨⟨garageBody⟩, refusedReply⟩] ∧
        Json.parse garageBody = some (nodesDocument (peers.map asText)) ∧
        (ForwardedUnread refusedReply results ∨ GarageAnswered (peers.map asText) refusedReply results) := by
  have hparsed : (parseConnectInput onePeer).peers = [onePeer] ∧ (parseConnectInput onePeer).errors = [] := by
    decide +kernel
  have hvalid : validateConnectNodes ([onePeer].map sent) = "" := by decide +kernel
  have hshort : ¬maxConnectBodyBytes < (requestBody [onePeer]).length := by decide +kernel
  have hreceived : received (connectResponse ([onePeer].map asText) refusedReply) = some [⟨false, some "refused"⟩] := by
    decide +kernel
  let log : GarageLog ConnectCall := [⟨⟨document marshal (nodesDocument ([onePeer].map asText))⟩, refusedReply⟩]
  have hrun : Runs (handleConnectNodes (.complete (requestBody [onePeer]))) log
      (connectResponse ([onePeer].map asText) refusedReply) := by
    rw [handleConnectNodes_requestBody hvalid, if_neg hshort]
    exact .call (.ret _)
  have hopen : Reachable connectDialog Answers { isOpen := true } := .step (a := .setOpen) (.init rfl) trivial rfl
  have htyped : Reachable connectDialog Answers { isOpen := true, text := onePeer } :=
    .step (a := .type onePeer) hopen trivial rfl
  have hsent : Reachable connectDialog Answers
      { isOpen := true, text := onePeer, pending := some ⟨[onePeer], 0⟩ } := by
    refine .step (a := .submit) htyped trivial ?_
    show Dialog.step _ _ = _
    simp [Dialog.step, Dialog.canSubmit, hparsed]
  have hshown : Reachable connectDialog Answers
      { isOpen := true, text := onePeer, rows := some [⟨onePeer, false, some "refused"⟩], asked := log } := by
    refine .step (a := .respond log (connectResponse ([onePeer].map asText) refusedReply)) hsent (fun p hp => ?_) ?_
    · obtain rfl := Option.some.inj hp
      exact hrun
    · show Dialog.step _ _ = _
      rw [Dialog.step]
      dsimp only
      rw [hreceived]
      rfl
  obtain ⟨hne, herrors, hpeers, garageBody, reply, results, hasked, hparse, -, -, hcases⟩ := results_belong hshown rfl
  obtain rfl : refusedReply = reply := by
    have hexchange := List.head_eq_of_cons_eq hasked
    exact eq_of_heq (Sigma.mk.inj hexchange).2
  exact ⟨_, rfl, hne, herrors, hpeers, garageBody, results, hasked, hparse, hcases.imp_right And.left⟩

end Form

end GarageConsole.Cluster
