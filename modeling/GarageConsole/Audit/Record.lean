import GarageConsole.Foundations.Alike
import GarageConsole.Foundations.Query
import GarageConsole.Audit.Streaming

/-! # The audit line

What `logAudit` writes about a request that was served: its path and the parameters the router took from it, the
allowlisted query parameters, and the detail of its body or of the answer. Two requests that differ only in
members and parameters outside the allowlists leave the same line.
-/

namespace GarageConsole.Audit.Record

open Foundations Foundations.Text Foundations.GoJson Foundations.Url GarageConsole.Garage GarageConsole.Permissions
  GarageConsole.RepairGuard

set_option autoImplicit false

/-! ## The answer as it is written -/

/-- What is kept of an answer. -/
structure CappedBuffer where
  buf : Bytes := []
  overflow : Bool := false
  deriving DecidableEq

def CappedBuffer.write (max : ℕ) (c : CappedBuffer) (p : Bytes) : CappedBuffer :=
  if 0 < max - c.buf.length then
    if max - c.buf.length < p.length then ⟨c.buf ++ p.take (max - c.buf.length), true⟩ else { c with buf := c.buf ++ p }
  else if 0 < p.length then { c with overflow := true }
  else c

def CappedBuffer.complete (c : CappedBuffer) : Bool := !c.overflow

/-- The answer after it has been written in these pieces. -/
def teed (max : ℕ) (written : List Bytes) : CappedBuffer := written.foldl (CappedBuffer.write max) {}

/-- What is kept does not depend on the pieces. -/
theorem teed_eq (max : ℕ) (written : List Bytes) :
    teed max written = ⟨written.flatten.take max, max < written.flatten.length⟩ := by
  induction written using List.reverseRecOn with
  | nil => simp [teed]
  | append_singleton written p ih =>
    rw [teed, List.foldl_append, List.foldl_cons, List.foldl_nil]
    change CappedBuffer.write max (teed max written) p = _
    rw [ih, List.flatten_append, List.flatten_singleton, CappedBuffer.write]
    dsimp only
    rw [List.length_take, List.length_append, List.take_append]
    split_ifs with hroom hlong hpiece
    · rw [Nat.min_eq_right (by omega)]
      congr
      rw [eq_comm, decide_eq_true_eq]
      omega
    · rw [List.take_of_length_le (show p.length ≤ max - written.flatten.length by omega)]
      congr 1
      rw [decide_eq_decide]
      omega
    · rw [show max - written.flatten.length = 0 by omega, List.take_zero, List.append_nil]
      congr
      rw [eq_comm, decide_eq_true_eq]
      omega
    · rw [List.length_eq_zero_iff.mp (Nat.eq_zero_of_not_pos hpiece), List.take_nil, List.append_nil]
      congr 1

/-- `Write`, with what it returns: the number of bytes taken, and no error. -/
def CappedBuffer.writeReport (max : ℕ) (c : CappedBuffer) (p : Bytes) : (ℕ × Option String) × CappedBuffer :=
  ((p.length, none), c.write max p)

/-- What the writes report, and the buffer after them. -/
def CappedBuffer.writes (max : ℕ) : CappedBuffer → List Bytes → List (ℕ × Option String) × CappedBuffer
  | c, [] => ([], c)
  | c, p :: rest =>
    let (report, c') := c.writeReport max p
    let (reports, last) := c'.writes max rest
    (report :: reports, last)

theorem writes_eq (max : ℕ) (c : CappedBuffer) (written : List Bytes) :
    c.writes max written = (written.map fun p => (p.length, none), written.foldl (CappedBuffer.write max) c) := by
  induction written generalizing c with
  | nil => rfl
  | cons p rest ih =>
    rw [CappedBuffer.writes, CappedBuffer.writeReport]
    dsimp only
    rw [ih]
    rfl

def bucketKeyPermsResponse : Decoder BucketKeyPermsResponse := struct
  [("bucketId", fun r v => (string r.bucketID v).map ({ r with bucketID := · })),
   ("accessKeyId", fun r v => (string r.accessKeyID v).map ({ r with accessKeyID := · })),
   ("permissions", fun r v => (struct permFields r.permissions v).map ({ r with permissions := · })),
   ("changed", fun r v => (bool r.changed v).map ({ r with changed := · }))]

def auditResponseDetail : List Segment := [.word "api", .word "buckets", .any, .word "console-access"]

/-- The permissions that the console's key ended up with. -/
def responseDetail (path : Bytes) (resp : CappedBuffer) : Detail :=
  if resp.complete && matchesPath auditResponseDetail path then
    (unmarshal bucketKeyPermsResponse ⟨"", "", {}, false⟩ resp.buf).elim [] fun body =>
      permissionsDetail body.permissions ++ [("changed", .bool body.changed)]
  else []

/-- Whether the answer is one of Garage's with an error of some node in it. -/
def garageErrors (resp : CappedBuffer) : Bool :=
  if !resp.complete || resp.buf = [] then false
  else match unmarshal (struct [("error", raw)]) none resp.buf with
    | some (some error) => (map Json.null (fun _ v => some v) .empty error).elim false fun errs => errs.entries ≠ []
    | _ => false

/-- An answer is decoded as a whole or not at all. -/
theorem decoded_whole (path : Bytes) (max : ℕ) (written : List Bytes) :
    responseDetail path (teed max written) =
        (if written.flatten.length ≤ max then responseDetail path ⟨written.flatten, false⟩ else []) ∧
      garageErrors (teed max written) =
        (if written.flatten.length ≤ max then garageErrors ⟨written.flatten, false⟩ else false) := by
  rw [teed_eq]
  split
  · rename_i hfits
    rw [List.take_of_length_le hfits, decide_eq_false (Nat.not_lt_of_le hfits)]
    exact ⟨rfl, rfl⟩
  · rename_i hlong
    rw [decide_eq_true (Nat.lt_of_not_le hlong)]
    exact ⟨rfl, rfl⟩

/-- Every write is taken in full, the buffer has the first `max` bytes of what was written, and is complete if that is
all of it. Both readers of the answer decode all of it or nothing, in whatever pieces it was written. -/
theorem capped_prefix (max : ℕ) (written : List Bytes) :
    let (reports, c) := CappedBuffer.writes max {} written
    reports = written.map (fun p => (p.length, none)) ∧
      c.buf = written.flatten.take (min max written.flatten.length) ∧
      (c.complete = true ↔ written.flatten.length ≤ max) ∧
      (∀ path, responseDetail path c =
        if written.flatten.length ≤ max then responseDetail path ⟨written.flatten, false⟩ else []) ∧
      (garageErrors c = if written.flatten.length ≤ max then garageErrors ⟨written.flatten, false⟩ else false) ∧
      ∀ pieces : List Bytes, pieces.flatten = written.flatten → (CappedBuffer.writes max {} pieces).2 = c := by
  rw [writes_eq]
  change _ ∧ (teed max written).buf = _ ∧ ((teed max written).complete = true ↔ _) ∧
    (∀ path, responseDetail path (teed max written) = _) ∧ garageErrors (teed max written) = _ ∧
    ∀ pieces : List Bytes, _ → _ = teed max written
  refine ⟨rfl, ?_, ?_, fun path => (decoded_whole path max written).1, (decoded_whole [] max written).2, ?_⟩
  · rw [teed_eq, List.take_eq_take_min]
  · rw [teed_eq, CappedBuffer.complete, Bool.not_eq_true', decide_eq_false_iff_not, Nat.not_lt]
  · intro pieces hsame
    rw [writes_eq]
    change teed max pieces = teed max written
    rw [teed_eq, teed_eq, hsame]

/-! ## The request as it was routed -/

/-- `truncateUTF8` of any text. -/
def truncateBytes (s : Bytes) (n : ℕ) : Bytes := if s.length ≤ n then s else s.take (cutAt s n)

def auditQueryAllowlist : List String := ["prefix", "delimiter", "key", "accessKeyId", "overwrite", "showSecretKey"]

/-- The loop is over a map, in no order; here it is in that of the allowlist. -/
def auditQuery (rawQuery : Bytes) : GoMap Bytes :=
  auditQueryAllowlist.foldl (fun out k =>
    match values (parseQuery rawQuery) (bytes k) with
    | [] => out
    | v :: _ => out.set k (truncateBytes v auditMaxValueBytes)) .empty

/-- What the router leaves behind: the pattern of the route, and the parameters it took from the path. -/
structure RouteContext where
  routePattern : String
  keys : List String
  values : List Bytes
  deriving DecidableEq

def auditRoute : Option RouteContext → String × GoMap Bytes
  | none => ("", .empty)
  | some rctx => (rctx.routePattern, (rctx.keys.zip rctx.values).foldl (fun params kv =>
      if kv.1 = "" ∨ kv.1 = "*" then params else params.set kv.1 (truncateBytes kv.2 auditMaxValueBytes)) .empty)

/-! ## The line -/

/-- A request that was served, with its answer. -/
structure Exchange where
  method : String
  path : Bytes
  rawQuery : Bytes
  body : Incoming
  routed : Option RouteContext
  status : ℕ
  written : List Bytes

structure AuditRecord where
  method : String
  path : Bytes
  route : String
  status : ℕ
  params : GoMap Bytes
  query : GoMap Bytes
  detail : Detail
  garageErrors : Bool
  deriving DecidableEq

def logAudit (x : Exchange) (detail : Detail) (response : CappedBuffer) : AuditRecord where
  method := x.method
  path := x.path
  route := (auditRoute x.routed).1
  status := x.status
  params := (auditRoute x.routed).2
  query := auditQuery x.rawQuery
  detail := if responseDetail x.path response = [] then detail else responseDetail x.path response
  garageErrors := garageErrors response

/-- The line about a request, if there is one. -/
def audited (x : Exchange) : Option AuditRecord :=
  if Streaming.isAuditedRequest (⟨x.method, x.path, x.body⟩ : Streaming.Request Incoming) then
    some (logAudit x ((auditDetail x.method x.path x.body).getD []) (teed maxAuditBodyBytes x.written))
  else none

end GarageConsole.Audit.Record
