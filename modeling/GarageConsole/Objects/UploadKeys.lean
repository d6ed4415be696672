import GarageConsole.Foundations.Query
import GarageConsole.Objects.Upload

/-! # The key that an upload writes

The key comes from the query, from a `key` field before the file part or from the file's name. The first two are
held to the length that S3 takes; the file's name is not, so `WritesItsKey` fails exactly for the requests
that fall back to a longer name (`writesItsKey_iff`).
-/

namespace GarageConsole.Objects

open Foundations Foundations.Text Foundations.Url Foundations.Calls GarageConsole.Garage

set_option autoImplicit false

/-- The request with the parameters of its query string. -/
def UploadRequest.withQuery (req : UploadRequest) (rawQuery : Bytes) : UploadRequest :=
  { req with
    overwrite := getValue (parseQuery rawQuery) (bytes "overwrite")
    key := getValue (parseQuery rawQuery) (bytes "key") }

/-! ## The key of an upload -/

def keyFields (parts : List Part) : List Bytes := (parts.filter (·.formName = "key")).map (·.content)

/-- The first of them that is not empty: the query's key, the fields before the file, the file's name. -/
def writtenKey (query : Bytes) (before : List Part) (file : Part) : Bytes :=
  ((query :: (keyFields before ++ [file.fileName])).find? (· ≠ [])).getD []

/-- The first file part, with the parts before it. -/
structure FileAt (parts before : List Part) (file : Part) : Prop where
  split : ∃ after, parts = before ++ file :: after
  isFile : file.formName = "file"
  first : ∀ p ∈ before, p.formName ≠ "file"

def uploadsOf (log : List (Exchange UploadCall UploadCall.Ans)) : List (Exchange UploadCall UploadCall.Ans) :=
  log.filter fun c => match c.1 with
    | .upload _ _ _ => true
    | _ => false

/-- One upload, with what came before it. -/
structure RightUpload (req : UploadRequest) (earlier : List (Exchange UploadCall UploadCall.Ans)) (bucket : String)
    (key : Bytes) (file : Part) : Prop where
  bucket_eq : bucket = req.bucket
  key_eq : ∃ before, FileAt req.parts before file ∧ key = writtenKey req.key before file
  key_ne : key ≠ []
  key_length : key.length ≤ maxObjectKeyBytes
  checked : req.overwrite = bytes "false" → ∃ found, Absent found ∧ ⟨.headObject bucket key, found⟩ ∈ earlier

/-- However far the handler has got. -/
def WritesItsKey (limit : ℤ) (req : UploadRequest) : Prop :=
  ∀ {log q}, Path (handleUploadObject limit req) log q → (uploadsOf log).length ≤ 1 ∧
    ∀ {earlier bucket key file answer later}, log = earlier ++ ⟨.upload bucket key file, answer⟩ :: later →
      RightUpload req earlier bucket key file

/-! ## The loop over the parts -/

/-- The key found so far, after one more field. -/
def afterField (key : Bytes) (p : Part) : Bytes := if p.formName = "key" ∧ key = [] then p.content else key

/-- The loop reads past the part. -/
structure PassedOver (p : Part) : Prop where
  notFile : p.formName ≠ "file"
  readable : p.readError = none
  short : p.formName = "key" → p.content.length ≤ maxObjectKeyBytes

section

variable {limit : ℤ} {req : UploadRequest} {key : Bytes} {keyChecked : Bool}

theorem uploadParts_passedOver {p : Part} (hp : PassedOver p) (rest : List Part) :
    uploadParts limit req key keyChecked (p :: rest) = uploadParts limit req (afterField key p) keyChecked rest := by
  rw [uploadParts, if_neg hp.notFile, hp.readable]
  by_cases hname : p.formName = "key"
  · have hread : readKeyField limit p = .ok p.content := by
      rw [readKeyField, if_neg (Nat.not_lt.mpr (hp.short hname)), hp.readable]
    rw [if_pos hname, hread]
    simp only [afterField, hname, true_and]
  · rw [if_neg hname, afterField, if_neg (fun h => hname h.1)]

theorem uploadParts_append {before : List Part} (hbefore : ∀ p ∈ before, PassedOver p) (rest : List Part) :
    uploadParts limit req key keyChecked (before ++ rest) =
      uploadParts limit req (before.foldl afterField key) keyChecked rest := by
  induction before generalizing key with
  | nil => rfl
  | cons p before ih =>
    rw [List.forall_mem_cons] at hbefore
    rw [List.cons_append, uploadParts_passedOver hbefore.1, ih hbefore.2, List.foldl_cons]

/-- The loop ends in a refusal, or it has passed over all that comes before the file part. -/
theorem uploadParts_reaches (parts : List Part) : Refused (uploadParts limit req key keyChecked parts) ∨
    ∃ before file, FileAt parts before file ∧ ∀ p ∈ before, PassedOver p := by
  induction parts generalizing key with
  | nil =>
    rw [uploadParts]
    cases req.ending with
    | none => exact .inl ⟨_, rfl⟩
    | some e => exact .inl ⟨_, rfl⟩
  | cons part rest ih =>
    by_cases hfile : part.formName = "file"
    · exact .inr ⟨[], part, ⟨⟨rest, rfl⟩, hfile, by simp⟩, by simp⟩
    · by_cases hpassed : PassedOver part
      · rw [uploadParts_passedOver hpassed]
        refine ih.imp_right ?_
        rintro ⟨before, file, ⟨⟨after, rfl⟩, hisFile, hfirst⟩, hbefore⟩
        exact ⟨part :: before, file, ⟨⟨after, rfl⟩, hisFile, List.forall_mem_cons.mpr ⟨hfile, hfirst⟩⟩,
          List.forall_mem_cons.mpr ⟨hpassed, hbefore⟩⟩
      · left
        rw [uploadParts, if_neg hfile]
        by_cases hname : part.formName = "key"
        · rw [if_pos hname, readKeyField]
          by_cases hlong : maxObjectKeyBytes < part.content.length
          · rw [if_pos hlong]
            exact ⟨_, rfl⟩
          · rw [if_neg hlong]
            cases hread : part.readError with
            | some e => exact ⟨_, rfl⟩
            | none => exact absurd ⟨hfile, hread, fun _ => Nat.not_lt.mp hlong⟩ hpassed
        · rw [if_neg hname]
          cases hread : part.readError with
          | some e => exact ⟨_, rfl⟩
          | none => exact absurd ⟨hfile, hread, fun h => absurd h hname⟩ hpassed

theorem keyFields_cons (p : Part) (before : List Part) :
    keyFields (p :: before) = if p.formName = "key" then p.content :: keyFields before else keyFields before := by
  unfold keyFields
  rw [List.filter_cons]
  simp only [decide_eq_true_eq]
  split_ifs <;> rfl

theorem fileKey_foldl (before : List Part) (file : Part) :
    fileKey (before.foldl afterField key) file = writtenKey key before file := by
  induction before generalizing key with
  | nil =>
    unfold fileKey writtenKey
    by_cases hkey : key = []
    · by_cases hname : file.fileName = [] <;> simp [hkey, keyFields, hname]
    · simp [hkey]
  | cons p before ih =>
    rw [List.foldl_cons, ih, afterField, writtenKey, writtenKey, keyFields_cons]
    by_cases hkey : key = []
    · by_cases hname : p.formName = "key" <;> simp [hkey, hname]
    · simp [hkey]

/-! ## The whole handler -/

/-- The handler gets to the upload of `file`, unless its check ends it. -/
structure Reaches (limit : ℤ) (req : UploadRequest) (before : List Part) (file : Part) : Prop where
  within : req.contentLength ≤ limit
  multipart : req.notMultipart = none
  short : req.key.length ≤ maxObjectKeyBytes
  fileAt : FileAt req.parts before file
  passed : ∀ p ∈ before, PassedOver p
  key_ne : writtenKey req.key before file ≠ []

theorem writtenKey_of_ne {query : Bytes} (h : query ≠ []) (before : List Part) (file : Part) :
    writtenKey query before file = query := by
  simp [writtenKey, h]

theorem uploadBody_reaches {before : List Part} {file : Part} (h : Reaches limit req before file) :
    uploadBody limit req keyChecked =
      uploadChecked limit req keyChecked (writtenKey req.key before file) file := by
  obtain ⟨after, hparts⟩ := h.fileAt.split
  have hisFile := h.fileAt.isFile
  rw [uploadBody, h.multipart, hparts, uploadParts_append h.passed, uploadParts, if_neg (by simp [hisFile]),
    if_pos hisFile, fileKey_foldl, if_neg h.key_ne]

theorem handle_admitted (hwithin : req.contentLength ≤ limit) (hshort : req.key.length ≤ maxObjectKeyBytes) :
    handleUploadObject limit req = if req.key = [] then uploadBody limit req false
      else checkOverwrite req req.key >>= afterCheck (uploadBody limit req true) := by
  have hlength : ¬limit < req.contentLength := Int.not_lt.mpr hwithin
  have hkey : ¬maxObjectKeyBytes < req.key.length := Nat.not_lt.mpr hshort
  rw [handleUploadObject, if_neg hlength, if_neg hkey]
  rfl

theorem handle_reaches {before : List Part} {file : Part} (h : Reaches limit req before file) :
    handleUploadObject limit req = checkOverwrite req (writtenKey req.key before file) >>=
      afterCheck (uploadFile limit req (writtenKey req.key before file) file) := by
  rw [handle_admitted h.within h.short]
  by_cases hkey : req.key = []
  · rw [if_pos hkey, uploadBody_reaches h]
    exact (uploadChecked_eq _ _).2
  · rw [if_neg hkey, uploadBody_reaches h, (uploadChecked_eq _ _).1, writtenKey_of_ne hkey]

/-- An upload is refused, if need be after its check, or it reaches a file part. -/
theorem handle_cases : (∃ key rest, handleUploadObject limit req = checkOverwrite req key >>= afterCheck rest ∧
    Refused rest) ∨ Refused (handleUploadObject limit req) ∨ ∃ before file, Reaches limit req before file := by
  have hbody : ∀ keyChecked, req.contentLength ≤ limit → req.key.length ≤ maxObjectKeyBytes →
      Refused (uploadBody limit req keyChecked) ∨ ∃ before file, Reaches limit req before file := by
    intro keyChecked hwithin hshort
    unfold uploadBody
    cases hmulti : req.notMultipart with
    | some message => exact .inl ⟨_, rfl⟩
    | none =>
      dsimp only
      rcases @uploadParts_reaches limit req req.key keyChecked req.parts with hrefused | ⟨before, file, hfile, hpassed⟩
      · exact .inl hrefused
      · by_cases hne : writtenKey req.key before file = []
        · left
          obtain ⟨after, hparts⟩ := hfile.split
          have hisFile := hfile.isFile
          rw [hparts, uploadParts_append hpassed, uploadParts, if_neg (by simp [hisFile]), if_pos hisFile,
            fileKey_foldl, if_pos hne]
          exact ⟨_, rfl⟩
        · exact .inr ⟨before, file, hwithin, hmulti, hshort, hfile, hpassed, hne⟩
  by_cases hwithin : req.contentLength ≤ limit
  · by_cases hshort : req.key.length ≤ maxObjectKeyBytes
    · rw [handle_admitted hwithin hshort]
      by_cases hkey : req.key = []
      · rw [if_pos hkey]
        exact .inr (hbody false hwithin hshort)
      · rw [if_neg hkey]
        exact (hbody true hwithin hshort).imp (fun hrefused => ⟨req.key, _, rfl, hrefused⟩) .inr
    · have hlong : maxObjectKeyBytes < req.key.length := Nat.not_le.mp hshort
      rw [handleUploadObject, if_pos hlong]
      right
      left
      split_ifs <;> exact ⟨_, rfl⟩
  · have hlarge : limit < req.contentLength := Int.not_le.mp hwithin
    rw [handleUploadObject, if_pos hlarge]
    exact .inr (.inl ⟨_, rfl⟩)

/-! ## The calls -/

variable {log r : List (Exchange UploadCall UploadCall.Ans)} {q : UploadProg (Except Response Uploaded)}

theorem uploadsOf_append (l r : List (Exchange UploadCall UploadCall.Ans)) :
    uploadsOf (l ++ r) = uploadsOf l ++ uploadsOf r := List.filter_append _ _

theorem uploadsOf_eq_nil {l : List (Exchange UploadCall UploadCall.Ans)} (h : uploadsOf l = []) {bucket : String}
    {key : Bytes} {file : Part} {answer : UploadAnswer} : (⟨.upload bucket key file, answer⟩ :
      Exchange UploadCall UploadCall.Ans) ∉ l := by
  intro hmem
  have hnone := List.filter_eq_nil_iff.mp h _ hmem
  exact hnone rfl

/-- What comes before the rest: nothing, or the check and the answer that the key is free. -/
theorem checked_path {key : Bytes} {rest : UploadProg (Except Response Uploaded)}
    (h : Path (checkOverwrite req key >>= afterCheck rest) log q) : uploadsOf log = [] ∨
      ∃ earlier r, log = earlier ++ r ∧ uploadsOf earlier = [] ∧ Path rest r q ∧
        (req.overwrite = bytes "false" → ∃ found, Absent found ∧ ⟨.headObject req.bucket key, found⟩ ∈ earlier) := by
  by_cases hkeep : req.overwrite = bytes "false"
  · obtain ⟨rfl, -⟩ | ⟨found, r, rfl, ⟨habsent, hpath⟩ | ⟨rfl, -⟩⟩ := checkOverwrite_path hkeep h
    · exact .inl rfl
    · exact .inr ⟨[⟨.headObject req.bucket key, found⟩], r, rfl, rfl, hpath,
        fun _ => ⟨found, habsent, List.mem_singleton_self _⟩⟩
    · exact .inl rfl
  · rw [checkOverwrite, if_pos hkeep] at h
    exact .inr ⟨[], log, rfl, rfl, h, fun hfalse => absurd hfalse hkeep⟩

theorem uploadFile_uploads {key : Bytes} {file : Part} (h : Path (uploadFile limit req key file) r q) :
    uploadsOf r = [] ∨ ∃ answer later, r = ⟨.upload req.bucket key file, answer⟩ :: later ∧ uploadsOf later = [] := by
  obtain ⟨rfl, -⟩ | ⟨answer, later, rfl, hlater, -⟩ := uploadFile_path h
  · exact .inl rfl
  · refine .inr ⟨answer, later, rfl, List.filter_eq_nil_iff.mpr ?_⟩
    rintro ⟨call, x⟩ hmem
    have hcall : call = .invalidateListCaches := hlater _ hmem
    subst hcall
    exact Bool.false_ne_true

/-- A run that uploads uploads the file part that it reached, once, after its check. -/
theorem upload_reached (h : Path (handleUploadObject limit req) log q) : uploadsOf log = [] ∨
    ∃ before file earlier answer later, Reaches limit req before file ∧
      log = earlier ++ ⟨.upload req.bucket (writtenKey req.key before file) file, answer⟩ :: later ∧
      uploadsOf earlier = [] ∧ uploadsOf later = [] ∧ (req.overwrite = bytes "false" → ∃ found, Absent found ∧
        ⟨.headObject req.bucket (writtenKey req.key before file), found⟩ ∈ earlier) := by
  obtain ⟨key, rest, heq, hrefused⟩ | hrefused | ⟨before, file, hreaches⟩ := @handle_cases limit req
  · rw [heq] at h
    obtain hnone | ⟨earlier, r, rfl, hearlier, hpath, -⟩ := checked_path h
    · exact .inl hnone
    · obtain ⟨rfl, -⟩ := hrefused.path hpath
      rw [List.append_nil]
      exact .inl hearlier
  · obtain ⟨rfl, -⟩ := hrefused.path h
    exact .inl rfl
  · rw [handle_reaches hreaches] at h
    obtain hnone | ⟨earlier, r, rfl, hearlier, hpath, hchecked⟩ := checked_path h
    · exact .inl hnone
    · obtain hr | ⟨answer, later, rfl, hlater⟩ := uploadFile_uploads hpath
      · rw [uploadsOf_append, hearlier, hr]
        exact .inl rfl
      · exact .inr ⟨before, file, earlier, answer, later, hreaches, rfl, hearlier, hlater, hchecked⟩

/-! ## When the key is right -/

/-- The request falls back to a file name that is too long for a key. -/
structure FallsBackToLongName (limit : ℤ) (req : UploadRequest) (before : List Part) (file : Part) : Prop where
  within : req.contentLength ≤ limit
  multipart : req.notMultipart = none
  noQueryKey : req.key = []
  fileAt : FileAt req.parts before file
  readable : ∀ p ∈ before, p.readError = none
  noFieldKey : ∀ p ∈ before, p.formName = "key" → p.content = []
  long : maxObjectKeyBytes < file.fileName.length

theorem writtenKey_nil (before : List Part) (file : Part) :
    writtenKey [] before file = ((keyFields before).find? (· ≠ [])).getD file.fileName := by
  rw [writtenKey, List.find?_cons_of_neg (by simp), List.find?_append]
  cases (keyFields before).find? (· ≠ []) with
  | some k => rfl
  | none => by_cases hname : file.fileName = [] <;> simp [hname]

/-- A key that came from the query or from a field was held to the length. -/
theorem Reaches.length_or {before : List Part} {file : Part} (h : Reaches limit req before file) :
    (writtenKey req.key before file).length ≤ maxObjectKeyBytes ∨ FallsBackToLongName limit req before file := by
  by_cases hkey : req.key = []
  · rw [hkey, writtenKey_nil]
    cases hfield : (keyFields before).find? (· ≠ []) with
    | some k =>
      obtain ⟨p, hp, rfl⟩ := List.mem_map.mp (List.mem_of_find?_eq_some hfield)
      obtain ⟨hmem, hname⟩ := List.mem_filter.mp hp
      exact .inl ((h.passed p hmem).short (of_decide_eq_true hname))
    | none =>
      by_cases hlong : maxObjectKeyBytes < file.fileName.length
      · refine .inr ⟨h.within, h.multipart, hkey, h.fileAt, fun p hp => (h.passed p hp).readable, ?_, hlong⟩
        intro p hp hname
        have hcontent : p.content ∈ keyFields before :=
          List.mem_map_of_mem (List.mem_filter.mpr ⟨hp, decide_eq_true hname⟩)
        have hempty := List.find?_eq_none.mp hfield _ hcontent
        simpa using hempty
      · exact .inl (Nat.not_lt.mp hlong)
  · rw [writtenKey_of_ne hkey]
    exact .inl h.short

theorem FallsBackToLongName.writtenKey_eq {before : List Part} {file : Part}
    (h : FallsBackToLongName limit req before file) : writtenKey req.key before file = file.fileName := by
  have hnone : (keyFields before).find? (· ≠ []) = none := by
    rw [List.find?_eq_none]
    intro k hk
    obtain ⟨p, hp, rfl⟩ := List.mem_map.mp hk
    obtain ⟨hmem, hname⟩ := List.mem_filter.mp hp
    simpa using h.noFieldKey p hmem (of_decide_eq_true hname)
  rw [h.noQueryKey, writtenKey_nil, hnone, Option.getD_none]

theorem FallsBackToLongName.reaches {before : List Part} {file : Part}
    (h : FallsBackToLongName limit req before file) : Reaches limit req before file where
  within := h.within
  multipart := h.multipart
  short := by rw [h.noQueryKey]; exact Nat.zero_le _
  fileAt := h.fileAt
  passed p hp := ⟨h.fileAt.first p hp, h.readable p hp, fun hname => by
    rw [h.noFieldKey p hp hname]
    exact Nat.zero_le _⟩
  key_ne := by
    rw [h.writtenKey_eq]
    intro hempty
    have hlong := h.long
    rw [hempty] at hlong
    exact absurd hlong (Nat.not_lt_zero _)

/-- S3 can always let an upload through that reaches its file part. -/
theorem Reaches.uploads {before : List Part} {file : Part} (h : Reaches limit req before file) :
    ∃ earlier answer q, Path (handleUploadObject limit req)
      (earlier ++ [⟨.upload req.bucket (writtenKey req.key before file) file, answer⟩]) q := by
  rw [handle_reaches h]
  by_cases hkeep : req.overwrite = bytes "false"
  · rw [checkOverwrite, if_neg (not_not.mpr hkeep)]
    exact ⟨[⟨.headObject req.bucket (writtenKey req.key before file), .error ⟨"", some "NotFound"⟩⟩], ⟨true, none⟩, _,
      .call (.call (.nil _))⟩
  · rw [checkOverwrite, if_pos hkeep]
    exact ⟨[], ⟨true, none⟩, _, .call (.nil _)⟩

theorem writesItsKey_iff : WritesItsKey limit req ↔ ¬∃ before file, FallsBackToLongName limit req before file := by
  constructor
  · rintro hright ⟨before, file, hlong⟩
    obtain ⟨earlier, answer, q, hpath⟩ := hlong.reaches.uploads
    have hlength := ((hright hpath).2 rfl).key_length
    rw [hlong.writtenKey_eq] at hlength
    exact absurd hlong.long (Nat.not_lt.mpr hlength)
  · intro hshort log q h
    obtain hnone | ⟨before, file, earlier, answer, later, hreaches, rfl, hearlier, hlater, hchecked⟩ := upload_reached h
    · refine ⟨by rw [hnone]; exact Nat.zero_le _, ?_⟩
      rintro earlier bucket key file answer later rfl
      exact absurd (List.mem_append_right _ List.mem_cons_self) (uploadsOf_eq_nil hnone)
    · constructor
      · rw [uploadsOf_append, hearlier]
        show (_ :: uploadsOf later).length ≤ 1
        rw [hlater]
        exact le_rfl
      · intro earlier' bucket key file' answer' later' hlog
        obtain ⟨rfl, hsame, -⟩ := (List.append_cons_inj_of_notMem (uploadsOf_eq_nil hearlier)
          (uploadsOf_eq_nil hlater)).mp hlog
        cases hsame
        exact ⟨rfl, ⟨before, hreaches.fileAt, rfl⟩, hreaches.key_ne,
          hreaches.length_or.resolve_right fun hlong => hshort ⟨before, _, hlong⟩, hchecked⟩

end

/-- An upload writes its key, once, unless it falls back to a file name that no key may be. -/
theorem upload_key_right_iff (limit : ℤ) (req : UploadRequest) (rawQuery : Bytes) :
    WritesItsKey limit (req.withQuery rawQuery) ↔
      ¬∃ before file, FallsBackToLongName limit (req.withQuery rawQuery) before file :=
  writesItsKey_iff

def longNamed : UploadRequest :=
  { bucket := "backups", parts := [{ formName := "file", fileName := List.replicate 1025 0x61 }] }

/-- A file whose name has 1025 bytes is uploaded under that name. -/
theorem long_name_written : ¬WritesItsKey 1048576 (longNamed.withQuery []) := by
  rw [writesItsKey_iff, not_not]
  refine ⟨[], { formName := "file", fileName := List.replicate 1025 0x61 }, ?_⟩
  refine ⟨by decide, rfl, by decide, ⟨⟨[], rfl⟩, rfl, by simp⟩, by simp, by simp, ?_⟩
  rw [List.length_replicate]
  decide

end GarageConsole.Objects
