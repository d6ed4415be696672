import Mathlib.Order.BooleanAlgebra.Basic
import GarageConsole.Foundations.Url
import GarageConsole.Garage.Client

/-! # Setting the permissions of a key on a bucket

Garage only sets flags (AllowBucketKey) and clears flags (DenyBucketKey). `setBucketKeyPermissions`
reads the current flags, and sends one call for the flags to set and one for the flags to clear.
`handleSetBucketKeyPermissions` and `handleGrantConsoleAccess` are its two routes. Flags are a Boolean
algebra, in which the two calls carry `want \ current` and `current \ want`.
-/

namespace GarageConsole.Permissions

open Foundations Foundations.Text Foundations.GoJson Foundations.Calls GarageConsole.Garage

set_option autoImplicit false

@[ext] structure BucketKeyPerm where
  read : Bool := false
  write : Bool := false
  owner : Bool := false
  deriving DecidableEq, Repr

namespace BucketKeyPerm

def any (p : BucketKeyPerm) : Bool := p.read || p.write || p.owner

/-! ## The algebra of flags -/

def flags (p : BucketKeyPerm) : Bool × Bool × Bool := (p.read, p.write, p.owner)

theorem flags_injective : Function.Injective flags := by
  intro p q h
  obtain ⟨r, w, o⟩ := p
  obtain ⟨r', w', o'⟩ := q
  simpa [flags] using h

instance : Max BucketKeyPerm := ⟨fun p q => ⟨p.read || q.read, p.write || q.write, p.owner || q.owner⟩⟩
instance : Min BucketKeyPerm := ⟨fun p q => ⟨p.read && q.read, p.write && q.write, p.owner && q.owner⟩⟩
instance : Top BucketKeyPerm := ⟨⟨true, true, true⟩⟩
instance : Bot BucketKeyPerm := ⟨⟨false, false, false⟩⟩
instance : Compl BucketKeyPerm := ⟨fun p => ⟨!p.read, !p.write, !p.owner⟩⟩
instance : SDiff BucketKeyPerm := ⟨fun p q => ⟨p.read && !q.read, p.write && !q.write, p.owner && !q.owner⟩⟩
instance : HImp BucketKeyPerm := ⟨fun p q => ⟨q.read || !p.read, q.write || !p.write, q.owner || !p.owner⟩⟩
instance : LE BucketKeyPerm := ⟨fun p q => p.flags ≤ q.flags⟩
instance : LT BucketKeyPerm := ⟨fun p q => p.flags < q.flags⟩

instance : BooleanAlgebra BucketKeyPerm :=
  flags_injective.booleanAlgebra flags Iff.rfl Iff.rfl (fun _ _ => rfl) (fun _ _ => rfl) rfl rfl (fun _ => rfl)
    (fun _ _ => rfl) (fun _ _ => rfl)

theorem any_eq_false_iff (p : BucketKeyPerm) : p.any = false ↔ p = ⊥ := by
  obtain ⟨r, w, o⟩ := p
  simp only [any, Bool.or_eq_false_iff, and_assoc]
  constructor
  · rintro ⟨rfl, rfl, rfl⟩
    rfl
  · intro h
    exact ⟨congrArg read h, congrArg write h, congrArg owner h⟩

end BucketKeyPerm

/-! ## Calls and answers -/

inductive PermCall where
  | getBucketInfo (id : String)
  | allowBucketKey (bucketId accessKeyId : String) (permissions : BucketKeyPerm)
  | denyBucketKey (bucketId accessKeyId : String) (permissions : BucketKeyPerm)
  deriving DecidableEq

instance : GarageCall PermCall where
  path
    | .getBucketInfo id => "/v2/GetBucketInfo?id=" ++ Url.queryEscape id
    | .allowBucketKey _ _ _ => "/v2/AllowBucketKey"
    | .denyBucketKey _ _ _ => "/v2/DenyBucketKey"

structure KeyEntry where
  accessKeyID : String := ""
  permissions : BucketKeyPerm := {}
  deriving DecidableEq

/-- The subset of GetBucketInfo that is read, which the two mutations answer too. -/
structure GarageBucketKeys where
  id : String := ""
  keys : Option (List KeyEntry) := none
  deriving DecidableEq

def permFields : List (GoJson.Field BucketKeyPerm) :=
  [("read", fun p v => (bool p.read v).map ({ p with read := · })),
   ("write", fun p v => (bool p.write v).map ({ p with write := · })),
   ("owner", fun p v => (bool p.owner v).map ({ p with owner := · }))]

def keyEntry : Decoder KeyEntry := struct
  [("accessKeyId", fun k v => (string k.accessKeyID v).map ({ k with accessKeyID := · })),
   ("permissions", fun k v => (struct permFields k.permissions v).map ({ k with permissions := · }))]

def garageBucketKeys : Decoder GarageBucketKeys := struct
  [("id", fun b v => (string b.id v).map ({ b with id := · })),
   ("keys", fun b v => (slice {} keyEntry b.keys v).map ({ b with keys := · }))]

/-- The flags of a key: those of its first entry, and none when it is not listed. -/
def GarageBucketKeys.permsOf (b : GarageBucketKeys) (keyID : String) : BucketKeyPerm :=
  match (b.keys.getD []).find? fun k => k.accessKeyID = keyID with
  | some k => k.permissions
  | none => {}

def readInfo (r : PermCall) : Reply → Except GarageError GarageBucketKeys :=
  readReply (GarageCall.path r) garageBucketKeys {}

/-! ## The change -/

structure BucketKeyPermsResponse where
  bucketID : String
  accessKeyID : String
  permissions : BucketKeyPerm
  changed : Bool
  deriving DecidableEq

/-- What a change returns: its response, or the path that failed and why; and whether it dropped the
cached lists. -/
structure PermsOutcome where
  result : Except (String × GarageError) BucketKeyPermsResponse
  invalidated : Bool
  deriving DecidableEq

def allowOf (current want : BucketKeyPerm) : BucketKeyPerm :=
  ⟨want.read && !current.read, want.write && !current.write, want.owner && !current.owner⟩

def denyOf (current want : BucketKeyPerm) : BucketKeyPerm :=
  ⟨!want.read && current.read, !want.write && current.write, !want.owner && current.owner⟩

/-- The loop over the steps that are left; a step without flags sends nothing. -/
def applySteps (bucketID keyID : String) :
    List (PermCall × BucketKeyPerm) → BucketKeyPerm → Bool → GarageProg PermCall PermsOutcome
  | [], result, changed => return ⟨.ok ⟨bucketID, keyID, result, changed⟩, changed⟩
  | (step, perms) :: rest, result, changed =>
    if !perms.any then applySteps bucketID keyID rest result changed
    else .call step fun reply =>
      match readInfo step reply with
      | .error e => return ⟨.error (GarageCall.path step, e), changed⟩
      | .ok after => applySteps bucketID keyID rest (after.permsOf keyID) true

def setBucketKeyPermissions (bucketID keyID : String) (desired : BucketKeyPerm → BucketKeyPerm) :
    GarageProg PermCall PermsOutcome :=
  .call (.getBucketInfo bucketID) fun reply =>
    match readInfo (.getBucketInfo bucketID) reply with
    | .error e => return ⟨.error (GarageCall.path (PermCall.getBucketInfo bucketID), e), false⟩
    | .ok info =>
      let bucketID := if info.id = "" then bucketID else info.id
      let current := info.permsOf keyID
      let want := desired current
      applySteps bucketID keyID
        [(.allowBucketKey bucketID keyID (allowOf current want), allowOf current want),
         (.denyBucketKey bucketID keyID (denyOf current want), denyOf current want)] current false

/-! ## The two routes -/

def BucketKeyPerm.toJson (p : BucketKeyPerm) : Json :=
  .obj [("read", .bool p.read), ("write", .bool p.write), ("owner", .bool p.owner)]

def BucketKeyPermsResponse.toJson (r : BucketKeyPermsResponse) : Json :=
  .obj [("bucketId", .str r.bucketID), ("accessKeyId", .str r.accessKeyID), ("permissions", r.permissions.toJson),
    ("changed", .bool r.changed)]

/-- Garage's own error answers are forwarded, everything else is a 502. -/
def writeGarageCallError : GarageError → Response
  | .status _ status contentType body =>
    ⟨status, .forwarded (if contentType = "" then "application/json" else contentType) (some body)⟩
  | _ => writeJSONError 502 "Bad Gateway"

def PermsOutcome.respond (o : PermsOutcome) : Response :=
  match o.result with
  | .error (_, e) => writeGarageCallError e
  | .ok r => ⟨200, .json r.toJson⟩

/-- The bytes of a body that a reader limited to `limit` gets; a failure beyond them goes unnoticed. -/
def readLimited (limit : ℕ) : Incoming → Option Bytes
  | .complete body => some (body.take limit)
  | .broken received => if received.length < limit then none else some (received.take limit)

def decodeDesired (incoming : Incoming) : Option BucketKeyPerm :=
  decodeFirst (strictStruct permFields) {} (incoming.received.take 65536)

/-- `PUT /api/buckets/{id}/keys/{kid}`. -/
def handleSetBucketKeyPermissions (bucketID keyID : String) (incoming : Incoming) : GarageProg PermCall Response :=
  match decodeDesired incoming with
  | none =>
    return writeJSONError 400 "invalid request body: expected \x7b\"read\":bool,\"write\":bool,\"owner\":bool\x7d"
  | some desired =>
    if !desired.any then
      return writeJSONError 400
        "at least one of read, write or owner is required (use DELETE to revoke all permissions)"
    else do
      let outcome ← setBucketKeyPermissions bucketID keyID fun _ => desired
      return outcome.respond

def maxConsoleAccessBodyBytes : ℕ := 1024

/-- What the console's key is to hold: read and write, and owner as it is. -/
def consoleAccess (current : BucketKeyPerm) : BucketKeyPerm := ⟨true, true, current.owner⟩

/-- `POST /api/buckets/{id}/console-access`. -/
def handleGrantConsoleAccess (consoleKeyID bucketID : String) (incoming : Incoming) : GarageProg PermCall Response :=
  if consoleKeyID = "" then
    return writeJSONError 503 "the console's S3 key (GARAGE_S3_ACCESS_KEY) is not configured"
  else match readLimited (maxConsoleAccessBodyBytes + 1) incoming with
    | none => return writeJSONError 400 "failed to read request body"
    | some raw =>
      if trimSpace raw ≠ [] ∧ trimSpace raw ≠ bytes "\x7b\x7d" then
        return writeJSONError 400 "request body must be empty: the console's own key is always used"
      else do
        let outcome ← setBucketKeyPermissions bucketID consoleKeyID consoleAccess
        return outcome.respond

end GarageConsole.Permissions
