import GarageConsole.Foundations.Interleaving
import GarageConsole.Foundations.Text
import GarageConsole.Objects.S3

/-! # Uploading an object

`handleUploadObject` walks through the parts of the request, settles the key and streams the file part into
S3. Unless the request says otherwise it overwrites; with `overwrite=false` it first asks S3 whether the key
is there. The question and the upload are two requests, and S3 is not told that they belong together.
-/

namespace GarageConsole.Objects

open Foundations Foundations.Text Foundations.Calls GarageConsole.Garage

set_option autoImplicit false

def maxObjectKeyBytes : ℕ := 1024

/-! ## The request -/

/-- Why the body could not be read further: the cap on its size, or something else. -/
inductive ReadError where
  | maxBytes
  | other (message : String)
  deriving DecidableEq

/-- A part of the body: its content up to the end or up to an error. -/
structure Part where
  formName : String
  fileName : Bytes := []
  contentType : String := ""
  content : Bytes := []
  readError : Option ReadError := none
  deriving DecidableEq

/-- `overwrite` and `key` are from the query, empty if absent; `notMultipart` is the error of a body that is no
form; `ending` is what follows the last part. -/
structure UploadRequest where
  bucket : String
  overwrite : Bytes := []
  key : Bytes := []
  contentLength : ℤ := -1
  notMultipart : Option String := none
  parts : List Part
  ending : Option ReadError := none

/-! ## The calls -/

inductive UploadError where
  | tooLarge
  | s3 (e : S3Error)
  deriving DecidableEq

/-- What became of an upload. An upload that fails may be stored nevertheless; the caller is told the error
only. -/
structure UploadAnswer where
  stored : Bool
  error : Option UploadError
  deriving DecidableEq

inductive UploadCall where
  | headObject (bucket : String) (key : Bytes)
  | upload (bucket : String) (key : Bytes) (part : Part)
  | invalidateListCaches
  deriving DecidableEq

abbrev UploadCall.Ans : UploadCall → Type
  | .headObject _ _ => Except S3Error Unit
  | .upload _ _ _ => UploadAnswer
  | .invalidateListCaches => Unit

abbrev UploadProg (α : Type) := Prog UploadCall UploadCall.Ans α

/-- The body of a 201. -/
structure Uploaded where
  bucket : String
  key : Bytes
  deriving DecidableEq

/-! ## The handler -/

def isNotFound (e : S3Error) : Bool := (s3ErrorStatus e).1 = 404

def existsOf : Except S3Error Unit → Except S3Error Bool
  | .ok () => .ok true
  | .error e => if isNotFound e then .ok false else .error e

def objectExists (bucket : String) (key : Bytes) : UploadProg (Except S3Error Bool) := do
  return existsOf (← Prog.send (.headObject bucket key))

def tooLargeResponse (limit : ℤ) : Response :=
  writeObjectError 413 ("upload exceeds the limit of " ++ toString limit ++ " bytes") "EntityTooLarge"

def writeUploadReadError (limit : ℤ) : ReadError → Response
  | .maxBytes => tooLargeResponse limit
  | .other message => writeObjectError 400 ("failed to read multipart body: " ++ message) ""

def keyTooLong : Response := writeObjectError 400 "key is too long" ""

section Handler

variable (limit : ℤ) (req : UploadRequest)

/-- The answer that ends the upload; none if it may go on. -/
def checkOverwrite (key : Bytes) : UploadProg (Option Response) :=
  if req.overwrite ≠ bytes "false" then return none
  else do
    match ← objectExists req.bucket key with
    | .error e => return some (writeS3Error e "failed to check existing object")
    | .ok true => return some (writeObjectError 409 ("object already exists: " ++ toText key) "ObjectAlreadyExists")
    | .ok false => return none

def uploadFile (key : Bytes) (part : Part) : UploadProg (Except Response Uploaded) :=
  .call (.upload req.bucket key part) fun answer =>
    match answer.error with
    | some .tooLarge => return .error (writeUploadReadError limit .maxBytes)
    | some (.s3 e) => return .error (writeS3Error e "failed to upload object")
    | none => .call .invalidateListCaches fun () => return .ok ⟨req.bucket, key⟩

/-- The file part under its key, which may have been checked already. -/
def uploadChecked (keyChecked : Bool) (key : Bytes) (part : Part) : UploadProg (Except Response Uploaded) := do
  match ← if keyChecked then pure none else checkOverwrite req key with
  | some resp => return .error resp
  | none => uploadFile limit req key part

def readKeyField (part : Part) : Except Response Bytes :=
  if maxObjectKeyBytes < part.content.length then .error keyTooLong
  else match part.readError with
    | some e => .error (writeUploadReadError limit e)
    | none => .ok part.content

def fileKey (key : Bytes) (part : Part) : Bytes := if key = [] then part.fileName else key

/-- The loop over the parts, with the key found so far. A part that is passed over is read to its end. -/
def uploadParts : Bytes → Bool → List Part → UploadProg (Except Response Uploaded)
  | _, _, [] =>
    match req.ending with
    | none => return .error (writeObjectError 400 "file field is required" "")
    | some e => return .error (writeUploadReadError limit e)
  | key, keyChecked, part :: rest =>
    if part.formName = "key" then
      match readKeyField limit part with
      | .error resp => return .error resp
      | .ok b => uploadParts (if key = [] then b else key) keyChecked rest
    else if part.formName = "file" then
      if fileKey key part = [] then return .error (writeObjectError 400 "key or file name is required" "")
      else uploadChecked limit req keyChecked (fileKey key part) part
    else
      match part.readError with
      | some e => return .error (writeUploadReadError limit e)
      | none => uploadParts key keyChecked rest

def uploadBody (keyChecked : Bool) : UploadProg (Except Response Uploaded) :=
  match req.notMultipart with
  | some message => return .error (writeObjectError 400 ("expected a multipart/form-data body: " ++ message) "")
  | none => uploadParts limit req req.key keyChecked req.parts

/-- `POST /api/objects/{bucket}/upload`. -/
def handleUploadObject : UploadProg (Except Response Uploaded) :=
  if limit < req.contentLength then return .error (tooLargeResponse limit)
  else if maxObjectKeyBytes < req.key.length then return .error keyTooLong
  else if req.key = [] then uploadBody limit req false
  else do
    match ← checkOverwrite req req.key with
    | some resp => return .error resp
    | none => uploadBody limit req true

end Handler

/-! ## The calls of an upload -/

section Calls

variable {limit : ℤ} {req : UploadRequest}

/-- S3 said that there is no such object. -/
def Absent (x : Except S3Error Unit) : Prop := existsOf x = .ok false

/-- The end of an upload that was refused. -/
def Refused (p : UploadProg (Except Response Uploaded)) : Prop := ∃ resp, p = .ret (.error resp)

theorem Refused.path {p q : UploadProg (Except Response Uploaded)} {log : List (Exchange UploadCall UploadCall.Ans)}
    (hp : Refused p) (h : Path p log q) : log = [] ∧ Refused q := by
  obtain ⟨resp, rfl⟩ := hp
  obtain ⟨rfl, rfl⟩ := path_ret.mp h
  exact ⟨rfl, resp, rfl⟩

/-- The loop does nothing but settle the key: it ends in a refusal or at the file part. -/
theorem uploadParts_shape (parts : List Part) (key : Bytes) (keyChecked : Bool) :
    Refused (uploadParts limit req key keyChecked parts) ∨
      ∃ key' part, (key ≠ [] → key' = key) ∧
        uploadParts limit req key keyChecked parts = uploadChecked limit req keyChecked key' part := by
  induction parts generalizing key with
  | nil =>
    rw [uploadParts]
    cases req.ending with
    | none => exact .inl ⟨_, rfl⟩
    | some e => exact .inl ⟨_, rfl⟩
  | cons part rest ih =>
    rw [uploadParts]
    by_cases hname : part.formName = "key"
    · rw [if_pos hname]
      cases readKeyField limit part with
      | error resp => exact .inl ⟨_, rfl⟩
      | ok b =>
        dsimp only
        by_cases hkey : key = []
        · rw [if_pos hkey]
          refine (ih b).imp_right ?_
          rintro ⟨key', part', -, heq⟩
          exact ⟨key', part', fun h => absurd hkey h, heq⟩
        · rw [if_neg hkey]
          exact ih key
    · rw [if_neg hname]
      by_cases hfile : part.formName = "file"
      · rw [if_pos hfile]
        by_cases hempty : fileKey key part = []
        · rw [if_pos hempty]
          exact .inl ⟨_, rfl⟩
        · rw [if_neg hempty]
          exact .inr ⟨_, part, fun h => if_neg h, rfl⟩
      · rw [if_neg hfile]
        cases part.readError with
        | some e => exact .inl ⟨_, rfl⟩
        | none => exact ih key

def afterCheck (rest : UploadProg (Except Response Uploaded)) : Option Response → UploadProg (Except Response Uploaded)
  | some resp => .ret (.error resp)
  | none => rest

theorem uploadChecked_eq (key : Bytes) (part : Part) :
    uploadChecked limit req true key part = uploadFile limit req key part ∧
      uploadChecked limit req false key part =
        checkOverwrite req key >>= afterCheck (uploadFile limit req key part) := by
  refine ⟨rfl, ?_⟩
  refine congrArg (checkOverwrite req key >>= ·) (funext fun found => ?_)
  cases found with
  | some resp => rfl
  | none => rfl

theorem uploadBody_shape (keyChecked : Bool) :
    Refused (uploadBody limit req keyChecked) ∨ ∃ key part, (req.key ≠ [] → key = req.key) ∧
      uploadBody limit req keyChecked = uploadChecked limit req keyChecked key part := by
  unfold uploadBody
  cases req.notMultipart with
  | some message => exact .inl ⟨_, rfl⟩
  | none => exact uploadParts_shape req.parts req.key keyChecked

/-- An upload is refused at once, or asks for its key and then is refused or uploads the file under it. -/
theorem handle_shape : Refused (handleUploadObject limit req) ∨
    ∃ key rest, handleUploadObject limit req = checkOverwrite req key >>= afterCheck rest ∧
      (Refused rest ∨ ∃ part, rest = uploadFile limit req key part) := by
  unfold handleUploadObject
  split_ifs with hlength hlong hkey
  · exact .inl ⟨_, rfl⟩
  · exact .inl ⟨_, rfl⟩
  · refine uploadBody_shape false |>.imp_right ?_
    rintro ⟨key, part, -, heq⟩
    exact ⟨key, _, heq.trans (uploadChecked_eq key part).2, .inr ⟨part, rfl⟩⟩
  · refine .inr ⟨req.key, uploadBody limit req true, congrArg _ (funext fun found => ?_), ?_⟩
    · cases found with
      | some resp => rfl
      | none => rfl
    · refine uploadBody_shape true |>.imp_right ?_
      rintro ⟨key, part, hsame, heq⟩
      rw [hsame hkey] at heq
      exact ⟨part, heq.trans (uploadChecked_eq req.key part).1⟩

def NotCreated (q : UploadProg (Except Response Uploaded)) : Prop := ∀ u, q ≠ .ret (.ok u)

theorem Refused.notCreated {q : UploadProg (Except Response Uploaded)} (h : Refused q) : NotCreated q := by
  obtain ⟨resp, rfl⟩ := h
  intro u hu
  cases hu

variable {key : Bytes} {log : List (Exchange UploadCall UploadCall.Ans)} {q : UploadProg (Except Response Uploaded)}

theorem uploadFile_path {part : Part} (h : Path (uploadFile limit req key part) log q) :
    log = [] ∧ NotCreated q ∨ ∃ x r, log = ⟨.upload req.bucket key part, x⟩ :: r ∧
      (∀ c ∈ r, c.1 = .invalidateListCaches) ∧ ∀ u, q = .ret (.ok u) → u = ⟨req.bucket, key⟩ ∧ x.error = none := by
  obtain ⟨rfl, rfl⟩ | ⟨x, r, rfl, hnext⟩ := path_call.mp h
  · exact .inl ⟨rfl, fun u hu => by cases hu⟩
  · refine .inr ⟨x, r, rfl, ?_⟩
    cases herror : x.error with
    | some e =>
      have hrefused : ∀ {p}, Refused p → Path p r q → (∀ c ∈ r, c.1 = .invalidateListCaches) ∧
          ∀ u, q = .ret (.ok u) → u = ⟨req.bucket, key⟩ ∧ some e = none := by
        intro p hp hpath
        obtain ⟨rfl, hq⟩ := hp.path hpath
        exact ⟨fun c hc => absurd hc List.not_mem_nil, fun u hu => absurd hu (hq.notCreated u)⟩
      rw [herror] at hnext
      cases e with
      | tooLarge => exact hrefused ⟨_, rfl⟩ hnext
      | s3 e => exact hrefused ⟨_, rfl⟩ hnext
    | none =>
      rw [herror] at hnext
      obtain ⟨rfl, rfl⟩ | ⟨_, r', rfl, hend⟩ := path_call.mp hnext
      · exact ⟨fun c hc => absurd hc List.not_mem_nil, fun u hu => by cases hu⟩
      · obtain ⟨rfl, rfl⟩ := path_ret.mp hend
        refine ⟨fun c hc => by rw [List.mem_singleton.mp hc], ?_⟩
        intro u hu
        cases hu
        exact ⟨rfl, rfl⟩

theorem checkOverwrite_path {rest : UploadProg (Except Response Uploaded)} (hkeep : req.overwrite = bytes "false")
    (h : Path (checkOverwrite req key >>= afterCheck rest) log q) :
    log = [] ∧ NotCreated q ∨ ∃ x r, log = ⟨.headObject req.bucket key, x⟩ :: r ∧
      (Absent x ∧ Path rest r q ∨ r = [] ∧ NotCreated q) := by
  rw [checkOverwrite, if_neg (not_not.mpr hkeep)] at h
  obtain ⟨rfl, rfl⟩ | ⟨x, r, rfl, hnext⟩ := path_call.mp h
  · exact .inl ⟨rfl, fun u hu => by cases hu⟩
  · refine .inr ⟨x, r, rfl, ?_⟩
    have hrefused : ∀ {p}, Refused p → Path p r q → r = [] ∧ NotCreated q := by
      intro p hp hpath
      obtain ⟨hr, hq⟩ := hp.path hpath
      exact ⟨hr, hq.notCreated⟩
    cases hfound : existsOf x with
    | error e =>
      simp only [Prog.bind, hfound] at hnext
      exact .inr (hrefused ⟨_, rfl⟩ hnext)
    | ok found =>
      simp only [Prog.bind, hfound] at hnext
      cases found with
      | true => exact .inr (hrefused ⟨_, rfl⟩ hnext)
      | false => exact .inl ⟨hfound, hnext⟩

/-- What an upload that keeps existing objects has done so far: nothing, its check, or its check with the
answer that there is no such object, the upload, and what follows it. -/
theorem upload_calls (hkeep : req.overwrite = bytes "false") (h : Path (handleUploadObject limit req) log q) :
    NotCreated q ∧ (log = [] ∨ ∃ key found, log = [⟨.headObject req.bucket key, found⟩]) ∨
      ∃ key found part x r, Absent found ∧
        log = ⟨.headObject req.bucket key, found⟩ :: ⟨.upload req.bucket key part, x⟩ :: r ∧
        (∀ c ∈ r, c.1 = .invalidateListCaches) ∧ ∀ u, q = .ret (.ok u) → u = ⟨req.bucket, key⟩ ∧ x.error = none := by
  have hshape : Refused (handleUploadObject limit req) ∨
      ∃ key rest, handleUploadObject limit req = checkOverwrite req key >>= afterCheck rest ∧
        (Refused rest ∨ ∃ part, rest = uploadFile limit req key part) := handle_shape
  obtain hrefused | ⟨key, rest, heq, hrest⟩ := hshape
  · obtain ⟨hlog, hq⟩ := hrefused.path h
    exact .inl ⟨hq.notCreated, .inl hlog⟩
  · rw [heq] at h
    obtain ⟨hlog, hq⟩ | ⟨found, r, rfl, hfound⟩ := checkOverwrite_path hkeep h
    · exact .inl ⟨hq, .inl hlog⟩
    · obtain ⟨habsent, hpath⟩ | ⟨rfl, hq⟩ := hfound
      · obtain hrefused | ⟨part, rfl⟩ := hrest
        · obtain ⟨rfl, hq⟩ := hrefused.path hpath
          exact .inl ⟨hq.notCreated, .inr ⟨key, found, rfl⟩⟩
        · obtain ⟨rfl, hq⟩ | ⟨x, r, rfl, hr, hq⟩ := uploadFile_path hpath
          · exact .inl ⟨hq, .inr ⟨key, found, rfl⟩⟩
          · exact .inr ⟨key, found, part, x, r, habsent, rfl, hr, hq⟩
      · exact .inl ⟨hq, .inr ⟨key, found, rfl⟩⟩

/-- The check is all that comes before an upload. -/
theorem checked_before_upload (hkeep : req.overwrite = bytes "false") (h : Path (handleUploadObject limit req) log q)
    {bucket : String} {part : Part} {x : UploadAnswer} {l r : List (Exchange UploadCall UploadCall.Ans)}
    (hlog : log = l ++ ⟨.upload bucket key part, x⟩ :: r) :
    ∃ found, Absent found ∧ l = [⟨.headObject bucket key, found⟩] := by
  obtain ⟨-, rfl | ⟨key', found, rfl⟩⟩ | ⟨key', found, part', x', r', habsent, rfl, hr, -⟩ := upload_calls hkeep h
  · exact absurd hlog (by simp)
  · rcases l with - | ⟨c, l⟩
    · cases hlog
    · exact absurd (List.cons.inj hlog).2 (by simp)
  · rcases l with - | ⟨c, - | ⟨c', l⟩⟩
    · cases hlog
    · cases hlog
      exact ⟨found, habsent, rfl⟩
    · obtain ⟨-, hlog⟩ := List.cons.inj hlog
      obtain ⟨-, rfl⟩ := List.cons.inj hlog
      have hcall := hr _ (List.mem_append_right l List.mem_cons_self)
      cases hcall

theorem uploaded_of_created (hkeep : req.overwrite = bytes "false") {u : Uploaded}
    (h : Path (handleUploadObject limit req) log (.ret (.ok u))) :
    ∃ part x, (⟨.upload u.bucket u.key part, x⟩ : Exchange UploadCall UploadCall.Ans) ∈ log ∧ x.error = none := by
  obtain ⟨hnot, -⟩ | ⟨key, found, part, x, r, -, rfl, -, hq⟩ := upload_calls hkeep h
  · exact absurd rfl (hnot u)
  · obtain ⟨rfl, herror⟩ := hq u rfl
    exact ⟨part, x, List.mem_cons_of_mem _ List.mem_cons_self, herror⟩

end Calls

end GarageConsole.Objects
