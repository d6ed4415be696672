import Mathlib.Data.String.Basic
import GarageConsole.Foundations.Keyed
import GarageConsole.Foundations.StableSort
import GarageConsole.Foundations.Utf8
import GarageConsole.RepairGuard.Guard

/-! # What the nodes answer

Garage answers a request to nodes with a map of results and a map of errors, and Go meets the entries of a map in any
order. `flattenWorkers` lists the workers of all nodes, `fetchSingleNode` unwraps the answer of one. Neither depends on
that order (`worker_list_fixed`, `single_node_answer`).
-/

namespace GarageConsole.Nodes

open Foundations Foundations.Text Foundations.GoJson Foundations.Keyed Foundations.StableSort Foundations.Calls
open Garage (Body GarageCall GarageProg GarageLog Reply Response forwardResponse writeJSONError)
open RepairGuard (ListWorkersMulti)

set_option autoImplicit false

/-! ## The workers of all nodes -/

structure WorkerEntry where
  nodeID : String
  id : ℤ
  raw : GoMap Json

/-- The fields as Garage sent them, with the node that they are from. -/
def WorkerEntry.marshalJSON (w : WorkerEntry) : GoMap Json := w.raw.set "nodeId" (.str w.nodeID)

structure WorkersResponse where
  workers : List WorkerEntry
  errors : GoMap String

section Workers

variable (int64 : Number → ℤ)

/-- The number under `id`; `int64` stands for the conversions that Go makes of it. -/
def workerID (m : GoMap Json) : ℤ :=
  match m.get "id" with
  | some (.num n) => int64 n
  | _ => 0

/-- What can be read as an object, `null` included, is a worker. -/
def workersOf (node : String × Option (List Json)) : List WorkerEntry :=
  (node.2.getD []).filterMap fun raw =>
    (map Json.null anyValue .empty raw).map fun m => ⟨node.1, workerID int64 m, m⟩

def idLE (a b : WorkerEntry) : Bool := a.id ≤ b.id

def workerLE (a b : WorkerEntry) : Bool := if a.nodeID = b.nodeID then idLE a b else a.nodeID ≤ b.nodeID

def flattenWorkers {multi : ListWorkersMulti} (success : Iteration multi.success) (errors : Iteration multi.error) :
    WorkersResponse where
  workers := (success.entries.flatMap (workersOf int64)).mergeSort workerLE
  errors := errors.entries.foldl (fun out entry => out.set entry.1 entry.2) .empty

end Workers

/-! ## One node -/

structure GarageMultiResponse where
  success : GoMap Json := .empty
  error : GoMap String := .empty

def garageMultiResponse : Decoder GarageMultiResponse := struct
  [("success", fun m v => (map Json.null (fun _ v => some v) m.success v).map ({ m with success := · })),
   ("error", fun m v => (map "" string m.error v).map ({ m with error := · }))]

def shortNodeID (id : String) : Bytes := if 16 < (bytes id).length then (bytes id).take 16 else bytes id

/-- The message of an error that wraps `errNodeNotAnswered`. -/
def notAnswered (detail : Bytes) : Bytes := bytes "node did not answer: " ++ detail

def nodeMessage (multi : GarageMultiResponse) (id : String) : Bytes :=
  shortNodeID id ++ bytes ": " ++ bytes ((multi.error.get id).getD "")

/-- The one node's result, or the message of the error. -/
def singleNodeResult (multi : GarageMultiResponse) (success : Iteration multi.success)
    (errors : Iteration multi.error) : Except Bytes (String × Json) :=
  if 0 < errors.entries.length then
    let ids := (errors.entries.map Prod.fst).insertionSort (· ≤ ·)
    .error (notAnswered ((bytes "; ").intercalate (ids.map (nodeMessage multi))))
  else
    match success.entries with
    | [] => .error (notAnswered (bytes "empty response"))
    | [entry] => .ok entry
    | entries => .error (notAnswered (bytes ("node id prefix matches " ++ toString entries.length ++ " nodes")))

/-- The response for an answer of Garage: the payload of the node, or what is wrong. -/
def singleNodeResponse (orders : ∀ {α : Type} (m : GoMap α), Iteration m) : Reply → Response
  | .unreachable => ⟨502, .text "Bad Gateway"⟩
  | .answered status contentType body =>
    if status ≠ 200 then forwardResponse (.answered status contentType body)
    else match body.bind (decodeFirst garageMultiResponse {}) with
      | none => ⟨502, .text "Bad Gateway"⟩
      | some multi =>
        match singleNodeResult multi (orders multi.success) (orders multi.error) with
        | .error msg => writeJSONError 502 (toText msg)
        | .ok (_, raw) => ⟨200, .json raw⟩

/-! ## The list is the same in every order -/

/-- The entries are compared by their nodes first. -/
theorem workerLE_iff {a b : WorkerEntry} :
    workerLE a b = true ↔ a.nodeID < b.nodeID ∨ a.nodeID = b.nodeID ∧ a.id ≤ b.id := by
  rw [workerLE]
  split_ifs with h
  · simp [idLE, h]
  · simp [h, le_iff_lt_or_eq]

theorem comparison_workerLE : Comparison workerLE where
  trans a b c hab hbc := by
    rw [workerLE_iff] at hab hbc ⊢
    rcases hab with hab | ⟨hab, hid⟩
    · rcases hbc with hbc | ⟨hbc, -⟩
      · exact .inl (hab.trans hbc)
      · exact .inl (hbc ▸ hab)
    · rcases hbc with hbc | ⟨hbc, hid'⟩
      · exact .inl (hab ▸ hbc)
      · exact .inr ⟨hab.trans hbc, hid.trans hid'⟩
  total a b := by
    rw [Bool.or_eq_true, workerLE_iff, workerLE_iff]
    rcases lt_trichotomy a.nodeID b.nodeID with hlt | heq | hgt
    · exact .inl (.inl hlt)
    · exact (le_total a.id b.id).imp (fun h => .inr ⟨heq, h⟩) fun h => .inr ⟨heq.symm, h⟩
    · exact .inr (.inl hgt)

theorem comparison_idLE : Comparison idLE where
  trans a b c hab hbc := by
    simp only [idLE, decide_eq_true_eq] at hab hbc ⊢
    exact hab.trans hbc
  total a b := by simpa [idLE] using le_total a.id b.id

theorem alike_workerLE {x y : WorkerEntry} : alike workerLE x y = true ↔ y.nodeID = x.nodeID ∧ y.id = x.id := by
  rw [alike, Bool.and_eq_true, workerLE_iff, workerLE_iff]
  constructor
  · rintro ⟨hxy | ⟨hxy, hid⟩, hyx | ⟨hyx, hid'⟩⟩
    · exact absurd hyx hxy.not_gt
    · exact absurd hyx hxy.ne'
    · exact absurd hxy hyx.ne'
    · exact ⟨hyx, le_antisymm hid' hid⟩
  · rintro ⟨hnode, hid⟩
    exact ⟨.inr ⟨hnode.symm, hid.ge⟩, .inr ⟨hnode, hid.le⟩⟩

theorem alike_idLE {x y : WorkerEntry} : alike idLE x y = true ↔ y.id = x.id := by
  rw [alike, idLE, idLE, Bool.and_eq_true, decide_eq_true_eq, decide_eq_true_eq]
  exact ⟨fun h => le_antisymm h.2 h.1, fun h => ⟨h.ge, h.le⟩⟩

section Workers

variable (int64 : Number → ℤ) {multi : ListWorkersMulti}

theorem nodeID_workersOf (node : String × Option (List Json)) : ∀ w ∈ workersOf int64 node, w.nodeID = node.1 := by
  intro w hw
  obtain ⟨raw, -, hraw⟩ := List.mem_filterMap.mp hw
  obtain ⟨m, -, rfl⟩ := Option.map_eq_some_iff.mp hraw
  rfl

/-- The workers of one node, as they are listed. -/
def listedOf (id : String) (entries : Option (Option (List Json))) : List WorkerEntry :=
  entries.elim [] fun entries => (workersOf int64 (id, entries)).mergeSort idLE

/-- The list, node after node. -/
def listed (multi : ListWorkersMulti) : List WorkerEntry :=
  (multi.success.entries.insertionSort fun a b => a.1 ≤ b.1).flatMap fun node =>
    (workersOf int64 node).mergeSort idLE

theorem nodeID_of_mem_sorted (node : String × Option (List Json)) :
    ∀ w ∈ (workersOf int64 node).mergeSort idLE, w.nodeID = node.1 :=
  fun w hw => nodeID_workersOf int64 node w (List.mem_mergeSort.mp hw)

/-- The nodes come in their order, each once. -/
theorem sorted_nodes : (multi.success.entries.insertionSort fun a b => a.1 ≤ b.1).Pairwise fun a b => a.1 < b.1 := by
  have hle : (multi.success.entries.insertionSort fun a b => a.1 ≤ b.1).Pairwise fun a b => a.1 ≤ b.1 :=
    List.pairwise_insertionSort _ _
  have hne : (multi.success.entries.insertionSort fun a b => a.1 ≤ b.1).Pairwise fun a b => a.1 ≠ b.1 := by
    rw [← List.pairwise_map]
    exact ((List.perm_insertionSort _ _).map Prod.fst).nodup_iff.mpr multi.success.nodup
  exact (hle.and hne).imp fun h => lt_of_le_of_ne h.1 h.2

theorem sorted_listed : (listed int64 multi).Pairwise (workerLE · · = true) := by
  rw [listed, List.pairwise_flatMap]
  constructor
  · intro node _
    refine (comparison_idLE.sorted_mergeSort (workersOf int64 node)).imp_of_mem fun hx hy hle => ?_
    rw [workerLE_iff, nodeID_of_mem_sorted int64 node _ hx, nodeID_of_mem_sorted int64 node _ hy]
    exact .inr ⟨rfl, of_decide_eq_true hle⟩
  · refine sorted_nodes.imp fun hlt x hx y hy => ?_
    rw [workerLE_iff, nodeID_of_mem_sorted int64 _ _ hx, nodeID_of_mem_sorted int64 _ _ hy]
    exact .inl hlt

theorem filter_alike_sorted (x : WorkerEntry) (l : List WorkerEntry) (hl : ∀ w ∈ l, w.nodeID = x.nodeID) :
    (l.mergeSort idLE).filter (alike workerLE x) = l.filter (alike workerLE x) := by
  have hsame {w : WorkerEntry} (hw : w.nodeID = x.nodeID) : alike workerLE x w = alike idLE x w := by
    rw [Bool.eq_iff_iff, alike_workerLE, alike_idLE, and_iff_right hw]
  rw [List.filter_congr fun w hw => hsame (hl w (List.mem_mergeSort.mp hw)),
    List.filter_congr fun w hw => hsame (hl w hw), comparison_idLE.filter_mergeSort]

/-- For one node and id the list has what the node answered, in its order. -/
theorem filter_listed (success : Iteration multi.success) (x : WorkerEntry) :
    (listed int64 multi).filter (alike workerLE x) =
      (success.entries.flatMap (workersOf int64)).filter (alike workerLE x) := by
  have hp (w : WorkerEntry) (hw : alike workerLE x w = true) : w.nodeID = x.nodeID := (alike_workerLE.mp hw).1
  have hperm := List.perm_insertionSort (fun a b : String × Option (List Json) => a.1 ≤ b.1) multi.success.entries
  rw [listed, filter_flatMap_keyed ((hperm.map Prod.fst).nodup_iff.mpr multi.success.nodup)
      (nodeID_of_mem_sorted int64) hp, lookup_of_perm multi.success.nodup hperm,
    filter_flatMap_keyed success.nodup (nodeID_workersOf int64) hp,
    lookup_of_perm multi.success.nodup success.perm]
  cases multi.success.entries.lookup x.nodeID with
  | none => rfl
  | some entries => exact filter_alike_sorted x _ (nodeID_workersOf int64 _)

theorem filter_node_listed (id : String) :
    ((listed int64 multi).filter fun w => w.nodeID = id) = listedOf int64 id (multi.success.get id) := by
  have hperm := List.perm_insertionSort (fun a b : String × Option (List Json) => a.1 ≤ b.1) multi.success.entries
  rw [listed, filter_flatMap_keyed ((hperm.map Prod.fst).nodup_iff.mpr multi.success.nodup)
      (nodeID_of_mem_sorted int64) (fun w hw => of_decide_eq_true hw), lookup_of_perm multi.success.nodup hperm]
  unfold GoMap.get
  cases multi.success.entries.lookup id with
  | none => rfl
  | some entries =>
    exact List.filter_eq_self.mpr fun w hw => decide_eq_true (nodeID_of_mem_sorted int64 (id, entries) w hw)

theorem filter_id_listedOf (id : String) (entries : Option (List Json)) (n : ℤ) :
    ((listedOf int64 id (some entries)).filter fun w => w.id = n) =
      (workersOf int64 (id, entries)).filter fun w => w.id = n := by
  have hsame (l : List WorkerEntry) : (l.filter fun w => w.id = n) = l.filter (alike idLE ⟨id, n, .empty⟩) := by
    refine List.filter_congr fun w _ => ?_
    rw [Bool.eq_iff_iff, alike_idLE, decide_eq_true_iff]
  rw [hsame, hsame, listedOf, Option.elim_some, comparison_idLE.filter_mergeSort]

/-- In whatever order Go meets the nodes, the list has their workers by node and then by id; workers of a node that
share an id stay as the node sent them. The nodes that failed are there with their messages. -/
theorem worker_list_fixed (success : Iteration multi.success) (errors : Iteration multi.error) :
    (flattenWorkers int64 success errors).workers = listed int64 multi ∧
      (listed int64 multi).Pairwise (fun a b => a.nodeID < b.nodeID ∨ a.nodeID = b.nodeID ∧ a.id ≤ b.id) ∧
      (∀ id, ((listed int64 multi).filter fun w => w.nodeID = id) = listedOf int64 id (multi.success.get id)) ∧
      (∀ id entries n, ((listedOf int64 id (some entries)).filter fun w => w.id = n) =
        (workersOf int64 (id, entries)).filter fun w => w.id = n) ∧
      ∀ id, (flattenWorkers int64 success errors).errors.get id = multi.error.get id := by
  refine ⟨?_, (sorted_listed int64).imp workerLE_iff.mp, filter_node_listed int64,
    filter_id_listedOf int64, fun id => ?_⟩
  · exact comparison_workerLE.mergeSort_eq_of_alike (sorted_listed int64) (filter_listed int64 success)
  · have hkeyWise : KeyWise GoMap.get (fun (out : GoMap String) entry => out.set entry.1 entry.2)
        fun _ msg _ => some msg := fun out entry key => GoMap.get_set out entry.1 key entry.2
    rw [flattenWorkers, foldl_iteration hkeyWise]
    cases multi.error.get id <;> rfl

end Workers

/-! ## One node's answer is the same in every order -/

/-- The nodes that failed, by their ids. -/
def failures (multi : GarageMultiResponse) : List (String × String) :=
  multi.error.entries.insertionSort fun a b => a.1 ≤ b.1

/-- What a failure adds to the message. -/
def failureText (failure : String × String) : Bytes := shortNodeID failure.1 ++ bytes ": " ++ bytes failure.2

theorem sorted_ids {multi : GarageMultiResponse} (errors : Iteration multi.error) :
    (errors.entries.map Prod.fst).insertionSort (· ≤ ·) = (failures multi).map Prod.fst := by
  refine List.Perm.eq_of_pairwise (fun a b _ _ hab hba => le_antisymm hab hba) (List.pairwise_insertionSort _ _) ?_ ?_
  · rw [List.pairwise_map]
    exact List.pairwise_insertionSort _ _
  · exact (List.perm_insertionSort _ _).trans ((errors.perm.trans (List.perm_insertionSort _ _).symm).map Prod.fst)

theorem failure_messages {multi : GarageMultiResponse} (errors : Iteration multi.error) :
    ((errors.entries.map Prod.fst).insertionSort (· ≤ ·)).map (nodeMessage multi) =
      (failures multi).map failureText := by
  rw [sorted_ids, List.map_map]
  refine List.map_congr_left fun failure hfailure => ?_
  have hget : multi.error.get failure.1 = some failure.2 :=
    (GoMap.mem_entries_iff _).mp ((List.perm_insertionSort _ _).mem_iff.mp hfailure)
  rw [Function.comp_apply, nodeMessage, hget]
  rfl

theorem singleNodeResult_failed {multi : GarageMultiResponse} (success : Iteration multi.success)
    (errors : Iteration multi.error) (h : multi.error.entries ≠ []) :
    singleNodeResult multi success errors =
      .error (notAnswered ((bytes "; ").intercalate ((failures multi).map failureText))) := by
  have hpos : 0 < errors.entries.length := by rwa [errors.perm.length_eq, List.length_pos_iff]
  rw [singleNodeResult, if_pos hpos, ← failure_messages errors]

theorem singleNodeResult_answered {multi : GarageMultiResponse} (success : Iteration multi.success)
    (errors : Iteration multi.error) (h : multi.error.entries = []) :
    singleNodeResult multi success errors =
      match multi.success.entries with
      | [] => .error (notAnswered (bytes "empty response"))
      | [entry] => .ok entry
      | entries => .error (notAnswered (bytes ("node id prefix matches " ++ toString entries.length ++ " nodes"))) := by
  have hnone : ¬0 < errors.entries.length := by rw [errors.perm.length_eq, h]; exact lt_irrefl 0
  rw [singleNodeResult, if_neg hnone]
  have hperm := success.perm
  generalize success.entries = met at hperm
  generalize multi.success.entries = entries at hperm
  match entries with
  | [] => rw [hperm.eq_nil]
  | [entry] => rw [List.perm_singleton.mp hperm]
  | a :: b :: rest =>
    -- two or more entries in any order are two or more
    have hlength := hperm.length_eq
    match met with
    | [] => exact absurd hlength (by simp)
    | [_] => exact absurd hlength (by simp)
    | c :: d :: others =>
      dsimp only
      rw [hlength]

theorem singleNodeResult_fixed {multi : GarageMultiResponse} (success success' : Iteration multi.success)
    (errors errors' : Iteration multi.error) :
    singleNodeResult multi success errors = singleNodeResult multi success' errors' := by
  by_cases h : multi.error.entries = []
  · rw [singleNodeResult_answered success errors h, singleNodeResult_answered success' errors' h]
  · rw [singleNodeResult_failed success errors h, singleNodeResult_failed success' errors' h]

theorem singleNodeResult_eq_ok {multi : GarageMultiResponse} (success : Iteration multi.success)
    (errors : Iteration multi.error) (entry : String × Json) : singleNodeResult multi success errors = .ok entry ↔
      multi.error.entries = [] ∧ multi.success.entries = [entry] := by
  by_cases h : multi.error.entries = []
  · rw [singleNodeResult_answered success errors h, and_iff_right h]
    match multi.success.entries with
    | [] => simp
    | [_] => simp
    | _ :: _ :: _ => simp
  · rw [singleNodeResult_failed success errors h]
    simp [h]

/-- What Garage's answer says of the nodes, if it can be read. -/
def multiAnswered : Reply → Option GarageMultiResponse
  | .unreachable => none
  | .answered status _ body => if status ≠ 200 then none else body.bind (decodeFirst garageMultiResponse {})

section Response

variable (orders : ∀ {α : Type} (m : GoMap α), Iteration m) {reply : Reply}

theorem singleNodeResponse_read {multi : GarageMultiResponse} (h : multiAnswered reply = some multi) :
    singleNodeResponse orders reply =
      match singleNodeResult multi (orders multi.success) (orders multi.error) with
      | .error msg => writeJSONError 502 (toText msg)
      | .ok (_, raw) => ⟨200, .json raw⟩ := by
  cases reply with
  | unreachable => cases h
  | answered status contentType body =>
    simp only [multiAnswered] at h
    split_ifs at h with hstatus
    simp only [singleNodeResponse, if_neg hstatus, h]

theorem singleNodeResponse_unread (h : multiAnswered reply = none) :
    singleNodeResponse orders reply = ⟨502, .text "Bad Gateway"⟩ ∨
      singleNodeResponse orders reply = forwardResponse reply ∧ ∀ raw, forwardResponse reply ≠ ⟨200, .json raw⟩ := by
  cases reply with
  | unreachable => exact .inl rfl
  | answered status contentType body =>
    simp only [multiAnswered] at h
    split_ifs at h with hstatus
    · refine .inr ⟨?_, fun raw heq => hstatus (congrArg Response.status heq)⟩
      simp only [singleNodeResponse, if_pos hstatus]
    · refine .inl ?_
      simp only [singleNodeResponse, if_neg hstatus, h]

/-- The client has a payload exactly when Garage answered 200 for one node and named no failure. Otherwise it learns of
each failing node, by id. The order in which Go meets the nodes does not show. -/
theorem single_node_answer :
    (∀ raw, singleNodeResponse orders reply = ⟨200, .json raw⟩ ↔
      ∃ multi id, multiAnswered reply = some multi ∧ multi.error.entries = [] ∧ multi.success.entries = [(id, raw)]) ∧
    (∀ multi, multiAnswered reply = some multi → multi.error.entries ≠ [] →
      singleNodeResponse orders reply =
        writeJSONError 502 (toText (notAnswered ((bytes "; ").intercalate ((failures multi).map failureText))))) ∧
    ∀ orders' : ∀ {α : Type} (m : GoMap α), Iteration m,
      singleNodeResponse orders' reply = singleNodeResponse orders reply := by
  cases hread : multiAnswered reply with
  | none =>
    refine ⟨fun raw => ?_, fun multi hmulti => absurd hmulti (Option.some_ne_none multi).symm, fun orders' => ?_⟩
    · refine iff_of_false ?_ (by rintro ⟨_, _, hmulti, -⟩; cases hmulti)
      rcases singleNodeResponse_unread orders hread with heq | ⟨heq, hnot⟩
      · rw [heq]
        exact fun h => absurd (congrArg Response.status h) (show ¬(502 : ℕ) = 200 by decide)
      · rw [heq]
        exact hnot raw
    · cases reply with
      | unreachable => rfl
      | answered status contentType body =>
        simp only [multiAnswered] at hread
        split_ifs at hread with hstatus
        · simp only [singleNodeResponse, if_pos hstatus]
        · simp only [singleNodeResponse, if_neg hstatus, hread]
  | some multi =>
    refine ⟨fun raw => ?_, fun multi' hmulti hne => ?_, fun orders' => ?_⟩
    · rw [singleNodeResponse_read orders hread]
      have hok := singleNodeResult_eq_ok (orders multi.success) (orders multi.error)
      constructor
      · intro heq
        split at heq
        · exact absurd (congrArg Response.status heq) (show ¬(502 : ℕ) = 200 by decide)
        · rename_i id payload hresult
          obtain rfl : payload = raw := Body.json.inj (congrArg Response.body heq)
          exact ⟨multi, id, rfl, (hok (id, payload)).mp hresult⟩
      · rintro ⟨multi', id, hmulti, hone⟩
        obtain rfl := Option.some.inj hmulti
        rw [(hok (id, raw)).mpr hone]
    · obtain rfl := Option.some.inj hmulti
      rw [singleNodeResponse_read orders hread, singleNodeResult_failed _ _ hne]
    · rw [singleNodeResponse_read orders hread, singleNodeResponse_read orders' hread,
        singleNodeResult_fixed (orders' multi.success) (orders multi.success) (orders' multi.error)
          (orders multi.error)]

end Response

end GarageConsole.Nodes
