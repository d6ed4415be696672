import GarageConsole.Garage.Client

/-! # Removing unfinished uploads

`handleCleanupIncompleteUploads` passes the age limit of its body on to Garage, which removes the unfinished
uploads of the bucket that are older.
-/

namespace GarageConsole.Maintenance

open Foundations Foundations.Text Foundations.GoJson Foundations.Calls GarageConsole.Garage

set_option autoImplicit false

def maxCleanupBodyBytes : ℕ := 4096

inductive CleanupCall where
  | cleanupIncompleteUploads (bucketID : String) (olderThanSecs : ℤ)
  deriving DecidableEq

structure CleanupOutcome where
  response : Response
  invalidates : Bool

/-- The limit of the body. One that is missing is refused: it would mean every upload. -/
def decodeOlderThan (incoming : Incoming) : Option ℤ :=
  let decoded := decodeFirst (struct [("olderThanSecs", pointer 0 int64)]) none
    (incoming.received.take maxCleanupBodyBytes)
  decoded.join.filter fun n => 0 ≤ n

def isSuccess : Reply → Bool
  | .unreachable => false
  | .answered status _ _ => 200 ≤ status && status < 300

/-- `POST /api/buckets/{id}/cleanup-uploads`. -/
def handleCleanupIncompleteUploads (bucketID : String) (incoming : Incoming) : GarageProg CleanupCall CleanupOutcome :=
  match decodeOlderThan incoming with
  | none => return ⟨writeJSONError 400 "olderThanSecs must be a non-negative integer", false⟩
  | some n => .call (.cleanupIncompleteUploads bucketID n) fun reply => return ⟨forwardResponse reply, isSuccess reply⟩

end GarageConsole.Maintenance
