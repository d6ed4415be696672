import GarageConsole.Garage.Client

/-! # The S3 requests of the object routes

Each request is one call; it fails as a whole, with the text of the SDK's error and the API's code
when the API answered, or gets its output.
-/

namespace GarageConsole.Objects

open Foundations Foundations.Calls GarageConsole.Garage

set_option autoImplicit false

structure S3Error where
  message : String
  code : Option String
  deriving DecidableEq

structure BatchDeleteError where
  key : String
  code : String
  message : String
  deriving DecidableEq

structure DeleteOutput where
  deleted : List String
  errors : List BatchDeleteError
  deriving DecidableEq

inductive S3Call where
  | deleteObjects (bucket : String) (keys : List String)
  deriving DecidableEq

abbrev S3Call.Ans : S3Call → Type
  | .deleteObjects _ _ => Except S3Error DeleteOutput

abbrev S3Prog (α : Type) := Prog S3Call S3Call.Ans α

abbrev S3Log := List (Exchange S3Call S3Call.Ans)

/-! ## Error responses -/

/-- `{"error": msg, "code": code}`, without an empty code. -/
def writeObjectError (status : ℕ) (msg code : String) : Response :=
  ⟨status, .json (.obj (("error", .str msg) :: if code = "" then [] else [("code", .str code)]))⟩

def s3ErrorStatus (e : S3Error) : ℕ × String :=
  match e.code with
  | none => (502, "")
  | some code =>
    if code ∈ ["NoSuchKey", "NoSuchBucket", "NotFound", "NoSuchUpload"] then (404, code)
    else if code ∈ ["AccessDenied", "Forbidden"] then (403, code)
    else (502, code)

def writeS3Error (e : S3Error) (action : String) : Response :=
  writeObjectError (s3ErrorStatus e).1 (action ++ ": " ++ e.message) (s3ErrorStatus e).2

end GarageConsole.Objects
