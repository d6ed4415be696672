import GarageConsole.Audit.Detail
import GarageConsole.Foundations.JsonWriter
import GarageConsole.Foundations.Projection
import GarageConsole.Foundations.Regex
import GarageConsole.Foundations.Utf16
import GarageConsole.Garage.Mutation

/-! # Importing a key

The form checks an access key and its secret, the backend checks them again before it asks Garage, and the audit
log notes the key's id. The form counts code units and has regular expressions; the backend counts bytes and looks
at them one by one. The form lets a pair through exactly when the backend does (`import_key_agrees`), and whatever
the client, Garage is asked to import only pairs that its own check takes (`import_key_checked`).
-/

namespace GarageConsole.Keys

open Foundations Foundations.Text Foundations.GoJson Foundations.Calls Foundations.JsonWriter Foundations.Utf16
open Garage (Incoming MutationProg MutationLog Reply Response forwardResponse proxyGarageMutation readRequestBody
  readRequestBody_error readRequestBody_ok sent writeJSONError)

set_option autoImplicit false

/-! ## Characters, by code point -/

/-- `[A-Za-z0-9._-]` -/
def idCode (code : ℕ) : Bool :=
  (0x61 ≤ code && code ≤ 0x7A) || (0x41 ≤ code && code ≤ 0x5A) || (0x30 ≤ code && code ≤ 0x39) ||
    code ∈ [0x2D, 0x5F, 0x2E]

/-- `[\x21-\x7e]` -/
def secretCode (code : ℕ) : Bool := 0x21 ≤ code && code ≤ 0x7E

def hexCode (code : ℕ) : Bool := (0x30 ≤ code && code ≤ 0x39) || (0x61 ≤ code && code ≤ 0x66)

/-! ## The backend -/

def maxImportKeyBodyBytes : ℕ := 4096

structure ImportKeyRequest where
  accessKeyID : String := ""
  secretAccessKey : String := ""
  name : Option String := none
  deriving DecidableEq

def importKeyFields : List (GoJson.Field ImportKeyRequest) :=
  [("accessKeyId", fun r v => (string r.accessKeyID v).map ({ r with accessKeyID := · })),
    ("secretAccessKey", fun r v => (string r.secretAccessKey v).map ({ r with secretAccessKey := · })),
    ("name", fun r v => (pointer "" string r.name v).map ({ r with name := · }))]

/-- The message about the first problem, empty if there is none. -/
def validateImportKey (req : ImportKeyRequest) : String :=
  let id := bytes req.accessKeyID
  let secret := bytes req.secretAccessKey
  if id.length < 8 then "accessKeyId must be at least 8 characters long"
  else if id.any fun c => !idCode c.toNat then
    "accessKeyId must contain only ASCII alphanumerics and '-', '_', '.'"
  else if secret.length < 16 then "secretAccessKey must be at least 16 characters long"
  else if secret.any fun c => !secretCode c.toNat then
    "secretAccessKey must contain only graphic ASCII characters (U+0021 to U+007E)"
  else ""

/-- Garage applies its default name when it gets none. -/
def trimmedName (name : String) : Option String :=
  if trimSpace (bytes name) = [] then none else some (toText (trimSpace (bytes name)))

def keyDocument (id secret : String) (name : Option String) : Json :=
  .obj [("accessKeyId", .str id), ("secretAccessKey", .str secret), ("name", name.elim .null .str)]

def handleImportKey (incoming : Incoming) : MutationProg Bytes Response :=
  match readRequestBody maxImportKeyBodyBytes incoming with
  | .error response => return response
  | .ok data =>
    match unmarshal (struct importKeyFields) {} data with
    | none => return writeJSONError 400 "invalid JSON body"
    | some req =>
      if validateImportKey req ≠ "" then return writeJSONError 400 (validateImportKey req)
      else
        proxyGarageMutation "/v2/ImportKey"
          (document marshal (keyDocument req.accessKeyID req.secretAccessKey (req.name.bind trimmedName)))

/-! ## The form -/

namespace Form

structure ImportKeyForm where
  name : Units
  accessKeyId : Units
  secretAccessKey : Units

structure ImportKeyBody where
  accessKeyId : Units
  secretAccessKey : Units
  name : Option Units
  deriving DecidableEq

structure FieldTexts where
  accessKeyId : Option String := none
  secretAccessKey : Option String := none
  deriving DecidableEq

structure ImportKeyValidation where
  errors : FieldTexts
  warnings : FieldTexts
  body : Option ImportKeyBody
  deriving DecidableEq

def codeClass (p : ℕ → Bool) : Regex UInt16 := .char fun u => p u.toNat

def KEY_ID_RE : Regex UInt16 := .plus (codeClass idCode)

def SECRET_RE : Regex UInt16 := .plus (codeClass secretCode)

/-- `^GK[0-9a-f]{24}$` -/
def GARAGE_KEY_ID_RE : Regex UInt16 :=
  .seq (codeClass (· = 0x47)) (.seq (codeClass (· = 0x4B)) (.times 24 (codeClass hexCode)))

/-- `^[0-9a-f]{64}$` -/
def GARAGE_SECRET_RE : Regex UInt16 := .times 64 (codeClass hexCode)

/-- The message about a field with at least `least` characters, all of which `re` takes. -/
def fieldError (least : ℕ) (re : Regex UInt16) (missing short malformed : String) (s : Units) : Option String :=
  if s = [] then some missing
  else if s.length < least then some short
  else if !re.accepts s then some malformed
  else none

def keyIdError : Units → Option String :=
  fieldError 8 KEY_ID_RE "アクセスキー ID を入力してください" "アクセスキー ID は 8 文字以上必要です"
    "アクセスキー ID に使えるのは英数字と - _ . だけです"

def secretError : Units → Option String :=
  fieldError 16 SECRET_RE "シークレットアクセスキーを入力してください" "シークレットアクセスキーは 16 文字以上必要です"
    "シークレットアクセスキーに使えるのは空白を除く ASCII 文字だけです"

def validateImportKey (form : ImportKeyForm) : ImportKeyValidation :=
  let accessKeyId := trim form.accessKeyId
  let secretAccessKey := trim form.secretAccessKey
  let errors : FieldTexts := ⟨keyIdError accessKeyId, secretError secretAccessKey⟩
  let warnings : FieldTexts :=
    { accessKeyId :=
        if errors.accessKeyId = none ∧ !GARAGE_KEY_ID_RE.accepts accessKeyId then
          some "Garage が発行する形式 (GK + 16 進 24 桁) ではありません"
        else none
      secretAccessKey :=
        if errors.secretAccessKey = none ∧ !GARAGE_SECRET_RE.accepts secretAccessKey then
          some "Garage が発行する形式 (16 進 64 桁) ではありません"
        else none }
  let name := trim form.name
  { errors, warnings
    body :=
      if errors.accessKeyId = none ∧ errors.secretAccessKey = none then
        some ⟨accessKeyId, secretAccessKey, if name = [] then none else some name⟩
      else none }

/-- The text of the request. A surrogate that stands alone is sent as an escape, which its reader makes U+FFFD of; here
it is U+FFFD already. -/
def requestBody (body : ImportKeyBody) : Bytes :=
  document (stringify 0) (keyDocument (asText body.accessKeyId) (asText body.secretAccessKey) (body.name.map asText))

end Form

/-! ## Strings of one byte a character -/

/-- A code unit that is no ASCII character is read as none. -/
theorem ascii_units {s : Units} (h : ∀ c ∈ decode s, c.toNat < 0x80) : ∀ u ∈ s, u.toNat < 0x80 := by
  have hone {u : UInt16} (hu : (decodeOne u).toNat < 0x80) : u.toNat < 0x80 := by
    rw [decodeOne] at hu
    split at hu
    · exact absurd hu (by decide)
    · rename_i hsurrogate
      have hscalar : u.toNat.isValidChar := by
        have := u.toNat_lt
        simp only [isHigh, isLow, Bool.or_eq_true, Bool.and_eq_true, decide_eq_true_eq] at hsurrogate
        simp only [Nat.isValidChar]
        omega
      rwa [toNat_charOfNat hscalar] at hu
  induction s using decode.induct with
  | case1 => simp
  | case2 u =>
    intro v hv
    rw [List.mem_singleton.mp hv]
    exact hone (h _ (by simp [decode]))
  | case3 u w rest hpair _ =>
    have hc := h _ (by rw [decode, if_pos hpair]; exact List.mem_cons_self)
    simp only [isHigh, isLow, Bool.and_eq_true, decide_eq_true_eq] at hpair
    rw [toNat_charOfNat (by simp only [Nat.isValidChar]; omega)] at hc
    omega
  | case4 u w rest hpair ih =>
    rw [decode, if_neg hpair] at h
    rw [List.forall_mem_cons]
    exact ⟨hone (h _ List.mem_cons_self), ih fun c hc => h c (List.mem_cons_of_mem _ hc)⟩

theorem bytes_text_ascii {s : Units} (h : ∀ u ∈ s, u.toNat < 0x80) :
    bytes (asText s) = s.map fun u => UInt8.ofNat u.toNat := by
  have hplain : ∀ u ∈ s, isHigh u = false ∧ isLow u = false := fun u hu => by
    have := h u hu
    simp only [isHigh, isLow, Bool.and_eq_false_iff, decide_eq_false_iff_not]
    omega
  rw [asText, bytes, String.toList_ofList, decode_of_plain hplain]
  induction s with
  | nil => rfl
  | cons u s ih =>
    have hu := h u List.mem_cons_self
    have hc : (Char.ofNat u.toNat).toNat = u.toNat := toNat_charOfNat (.inl (by omega))
    have hval : (Char.ofNat u.toNat).val.toNat = u.toNat := hc
    rw [List.map_cons, List.flatMap_cons, ih (fun v hv => h v (List.mem_cons_of_mem u hv)) fun v hv =>
      hplain v (List.mem_cons_of_mem u hv), String.utf8EncodeChar, hval, if_pos (by omega)]
    rfl

theorem class_of_bytes {p : ℕ → Bool} (hp : ∀ code, p code = true → code < 0x80) {s : String}
    (h : ∀ b ∈ bytes s, p b.toNat = true) : ∀ c ∈ s.toList, p c.toNat = true := by
  intro c hc
  obtain ⟨b, hb⟩ := List.exists_mem_of_ne_nil _ (String.utf8EncodeChar_ne_nil (c := c))
  have hbyte := h b (List.mem_flatMap.mpr ⟨c, hc, hb⟩)
  have hsmall := hp _ hbyte
  rcases mem_utf8EncodeChar hb with heq | ⟨hlarge, -⟩
  · rwa [← heq]
  · omega

theorem length_bytes_ascii {s : String} (h : ∀ c ∈ s.toList, c.toNat < 0x80) : (bytes s).length = s.toList.length := by
  unfold bytes
  generalize s.toList = cs at h
  induction cs with
  | nil => rfl
  | cons c cs ih =>
    have hc := h c List.mem_cons_self
    have hval : c.val.toNat = c.toNat := rfl
    rw [List.flatMap_cons, List.length_append, ih fun d hd => h d (List.mem_cons_of_mem c hd),
      String.utf8EncodeChar, hval, if_pos (by omega), List.length_cons, List.length_cons, List.length_nil]
    omega

theorem toNat_byte {u : UInt16} (h : u.toNat < 0x80) : (UInt8.ofNat u.toNat).toNat = u.toNat :=
  toNat_ofNat_byte (by omega)

/-- Counting and looking at code units or at bytes comes to the same where the characters have to be ASCII. -/
theorem ascii_class {p : ℕ → Bool} (hp : ∀ code, p code = true → code < 0x80) (s : Units) (n : ℕ) :
    (n ≤ (bytes (asText s)).length ∧ ∀ b ∈ bytes (asText s), p b.toNat = true) ↔
      (n ≤ s.length ∧ ∀ u ∈ s, p u.toNat = true) := by
  constructor
  · rintro ⟨hlen, hall⟩
    have hchars := class_of_bytes hp hall
    rw [asText, String.toList_ofList] at hchars
    have hunits := ascii_units fun c hc => hp _ (hchars c hc)
    rw [bytes_text_ascii hunits] at hlen hall
    refine ⟨by simpa using hlen, fun u hu => ?_⟩
    have hbyte := hall _ (List.mem_map_of_mem hu)
    rwa [toNat_byte (hunits u hu)] at hbyte
  · rintro ⟨hlen, hall⟩
    have hunits : ∀ u ∈ s, u.toNat < 0x80 := fun u hu => hp _ (hall u hu)
    rw [bytes_text_ascii hunits]
    refine ⟨by simpa using hlen, fun b hb => ?_⟩
    obtain ⟨u, hu, rfl⟩ := List.mem_map.mp hb
    rw [toNat_byte (hunits u hu)]
    exact hall u hu

theorem idCode_iff (code : ℕ) : idCode code = true ↔ (0x61 ≤ code ∧ code ≤ 0x7A) ∨ (0x41 ≤ code ∧ code ≤ 0x5A) ∨
    (0x30 ≤ code ∧ code ≤ 0x39) ∨ code = 0x2D ∨ code = 0x5F ∨ code = 0x2E := by
  simp [idCode, or_assoc]

theorem idCode_ascii (code : ℕ) (h : idCode code = true) : code < 0x80 := by
  have hcases := (idCode_iff code).mp h
  omega

theorem secretCode_ascii (code : ℕ) (h : secretCode code = true) : code < 0x80 := by
  simp only [secretCode, Bool.and_eq_true, decide_eq_true_eq] at h
  omega

/-! ## What either side takes -/

/-- What Garage's own check asks of a pair. -/
def Acceptable (id secret : Bytes) : Prop :=
  (8 ≤ id.length ∧ ∀ b ∈ id, idCode b.toNat = true) ∧ (16 ≤ secret.length ∧ ∀ b ∈ secret, secretCode b.toNat = true)

theorem validateImportKey_eq {req : ImportKeyRequest} :
    validateImportKey req = "" ↔ Acceptable (bytes req.accessKeyID) (bytes req.secretAccessKey) := by
  unfold validateImportKey Acceptable
  dsimp only
  split_ifs with h₁ h₂ h₃ h₄
  · simp [Nat.not_le.mpr h₁]
  · obtain ⟨b, hb, hbad⟩ := List.any_eq_true.mp h₂
    simp only [String.reduceEq, false_iff]
    intro h
    simp [h.1.2 b hb] at hbad
  · simp [Nat.not_le.mpr h₃]
  · obtain ⟨b, hb, hbad⟩ := List.any_eq_true.mp h₄
    simp only [String.reduceEq, false_iff]
    intro h
    simp [h.2.2 b hb] at hbad
  · simp only [List.any_eq_true, not_exists, not_and, Bool.not_eq_true, Bool.not_eq_false'] at h₂ h₄
    exact iff_of_true rfl ⟨⟨Nat.le_of_not_lt h₁, h₂⟩, Nat.le_of_not_lt h₃, h₄⟩

namespace Form

theorem fieldError_eq_none {p : ℕ → Bool} {least : ℕ} (hleast : 0 < least) {missing short malformed : String}
    {s : Units} : fieldError least (.plus (codeClass p)) missing short malformed s = none ↔
      least ≤ s.length ∧ ∀ u ∈ s, p u.toNat = true := by
  have haccepts (hne : s ≠ []) : (Regex.plus (codeClass p)).accepts s = true ↔ ∀ u ∈ s, p u.toNat = true := by
    rw [Regex.accepts_iff, codeClass, Regex.matches_plus_char]
    exact and_iff_right hne
  unfold fieldError
  split_ifs with hempty hshort hbad
  · simp [hempty, hleast.ne']
  · simp [Nat.not_le.mpr hshort]
  · rw [Bool.not_eq_true', ← Bool.not_eq_true, haccepts hempty] at hbad
    simp [hbad]
  · rw [Bool.not_eq_true', Bool.not_eq_false, haccepts hempty] at hbad
    exact iff_of_true rfl ⟨Nat.le_of_not_lt hshort, hbad⟩

/-- The form has something to send exactly when the pair without its surrounding white space is acceptable. -/
theorem body_isSome_iff {form : ImportKeyForm} : (validateImportKey form).body.isSome = true ↔
    Acceptable (bytes (asText (trim form.accessKeyId))) (bytes (asText (trim form.secretAccessKey))) := by
  have hid : keyIdError (trim form.accessKeyId) = none ↔ _ := fieldError_eq_none (by decide)
  have hsecret : secretError (trim form.secretAccessKey) = none ↔ _ := fieldError_eq_none (by decide)
  rw [Acceptable, ascii_class idCode_ascii, ascii_class secretCode_ascii, ← hid, ← hsecret]
  dsimp only [validateImportKey]
  by_cases h : keyIdError (trim form.accessKeyId) = none ∧ secretError (trim form.secretAccessKey) = none
  · rw [if_pos h]
    exact iff_of_true rfl h
  · rw [if_neg h]
    exact iff_of_false Bool.false_ne_true h

end Form

/-! ## The handler -/

/-- What Garage is asked to import. -/
def importBody (req : ImportKeyRequest) : Bytes :=
  document marshal (keyDocument req.accessKeyID req.secretAccessKey (req.name.bind trimmedName))

theorem handleImportKey_of_valid {incoming : Incoming} {data : Bytes} {req : ImportKeyRequest}
    (hread : readRequestBody maxImportKeyBodyBytes incoming = .ok data)
    (hreq : unmarshal (struct importKeyFields) {} data = some req) (hvalid : validateImportKey req = "") :
    handleImportKey incoming = proxyGarageMutation "/v2/ImportKey" (importBody req) := by
  unfold handleImportKey
  rw [hread]
  dsimp only
  rw [hreq]
  dsimp only
  rw [hvalid, if_neg (not_not.mpr rfl)]
  rfl

/-- Either the request is turned down and Garage is asked nothing, or Garage is asked once. -/
theorem runs_handleImportKey {incoming : Incoming} {log : MutationLog Bytes} {resp : Response}
    (h : Runs (handleImportKey incoming) log resp) :
    (log = [] ∧ (resp.status = 413 ∨ resp.status = 400)) ∨
      ∃ data req reply, incoming = .complete data ∧ data.length ≤ maxImportKeyBodyBytes ∧
        unmarshal (struct importKeyFields) {} data = some req ∧ validateImportKey req = "" ∧
        log = sent "/v2/ImportKey" (importBody req) reply ∧ resp = forwardResponse reply := by
  cases hread : readRequestBody maxImportKeyBodyBytes incoming with
  | error response =>
    rw [handleImportKey, hread] at h
    obtain ⟨rfl, rfl⟩ := runs_ret.mp h
    exact .inl ⟨rfl, readRequestBody_error hread⟩
  | ok data =>
    cases hreq : unmarshal (struct importKeyFields) {} data with
    | none =>
      rw [handleImportKey, hread] at h
      dsimp only at h
      rw [hreq] at h
      obtain ⟨rfl, rfl⟩ := runs_ret.mp h
      exact .inl ⟨rfl, .inr rfl⟩
    | some req =>
      by_cases hvalid : validateImportKey req = ""
      · rw [handleImportKey_of_valid hread hreq hvalid, Garage.runs_proxyGarageMutation] at h
        obtain ⟨reply, hlog, hresp⟩ := h
        obtain ⟨hcomplete, hlen⟩ := readRequestBody_ok hread
        exact .inr ⟨data, req, reply, hcomplete, hlen, hreq, hvalid, hlog, hresp⟩
      · rw [handleImportKey, hread] at h
        dsimp only at h
        rw [hreq] at h
        dsimp only at h
        rw [if_pos hvalid] at h
        obtain ⟨rfl, rfl⟩ := runs_ret.mp h
        exact .inl ⟨rfl, .inr rfl⟩

/-! ## The audit log -/

/-- A reader that only knows the key's id makes the same of it. -/
theorem projects_id : Projects ImportKeyRequest.accessKeyID importKeyFields [("accessKeyId", string)] := by
  refine .keep (fun r r' v h => ?_) (.drop (fun r r' v h => ?_) (.drop (fun r r' v h => ?_) .nil)) <;>
    obtain ⟨field, hfield, rfl⟩ := Option.map_eq_some_iff.mp h
  · exact hfield
  · rfl
  · rfl

theorem unmarshal_id {data : Bytes} {req : ImportKeyRequest}
    (h : unmarshal (struct importKeyFields) {} data = some req) :
    unmarshal (struct [("accessKeyId", string)]) "" data = some req.accessKeyID :=
  projects_id.unmarshal (by decide +kernel) h

theorem idCode_eq (c : Char) : idCode c.toNat =
    (Audit.isLetter c || Audit.isDecimal c || c = '.' || c = '_' || c = '-') := by
  rw [Bool.eq_iff_iff]
  simp only [idCode_iff, Audit.isLetter, Audit.isDecimal, Bool.or_eq_true, Bool.and_eq_true, decide_eq_true_eq,
    Char.le_def, UInt32.le_iff_toNat_le, ← Char.toNat_inj]
  have hval : c.val.toNat = c.toNat := rfl
  rw [hval]
  simp only [show 'a'.val.toNat = 97 from rfl, show 'z'.val.toNat = 122 from rfl, show 'A'.val.toNat = 65 from rfl,
    show 'Z'.val.toNat = 90 from rfl, show '0'.val.toNat = 48 from rfl, show '9'.val.toNat = 57 from rfl,
    show '.'.toNat = 46 from rfl, show '_'.toNat = 95 from rfl, show '-'.toNat = 45 from rfl]
  omega

/-- An id that may be imported is noted if it is no longer than the usual ones. -/
theorem auditKeyIDToken_eq {id : String} (hlen : 8 ≤ (bytes id).length) (hall : ∀ b ∈ bytes id, idCode b.toNat = true) :
    Audit.auditKeyIDToken id = decide (id.toList.length ≤ 32) := by
  have hchars := class_of_bytes idCode_ascii hall
  rw [length_bytes_ascii fun c hc => idCode_ascii _ (hchars c hc)] at hlen
  have hok : (id.toList.all fun d =>
      Audit.isLetter d || Audit.isDecimal d || d = '.' || d = '_' || d = '-') = true := by
    rw [List.all_eq_true]
    exact fun c hc => idCode_eq c ▸ hchars c hc
  rw [Audit.auditKeyIDToken, hok, decide_eq_true hlen, Bool.true_and, Bool.and_true]

theorem auditDetail_import {data : Bytes} {req : ImportKeyRequest} (hlen : data.length ≤ maxImportKeyBodyBytes)
    (hreq : unmarshal (struct importKeyFields) {} data = some req)
    (hvalid : Acceptable (bytes req.accessKeyID) (bytes req.secretAccessKey)) :
    Audit.auditDetail "POST" (bytes "/api/keys/import") (.complete data) =
      if req.accessKeyID.toList.length ≤ 32 then some [("accessKeyId", .str req.accessKeyID)] else none := by
  have hextractor : Audit.extractorFor "POST" (bytes "/api/keys/import") = some Audit.extractImportedKeyID := rfl
  have hwhole : data.take (Audit.maxAuditBodyBytes + 1) = data := List.take_of_length_le (Nat.le_succ_of_le hlen)
  have hcut : data.take Audit.maxAuditBodyBytes = data := List.take_of_length_le hlen
  have hextract : Audit.extractImportedKeyID data true =
      if req.accessKeyID.toList.length ≤ 32 then [("accessKeyId", .str req.accessKeyID)] else [] := by
    rw [Audit.extractImportedKeyID, Audit.decoded, if_pos rfl, unmarshal_id hreq]
    show (if Audit.auditKeyIDToken req.accessKeyID then _ else _) = _
    rw [auditKeyIDToken_eq hvalid.1.1 hvalid.1.2]
    simp
  rw [Audit.auditDetail, hextractor, Permissions.readLimited, hwhole]
  dsimp only
  rw [hcut, decide_eq_true (show data.length ≤ Audit.maxAuditBodyBytes from hlen), hextract]
  split_ifs <;> simp_all

/-! ## Both together -/

theorem unmarshal_keyDocument (style : Style) (id secret : String) (name : Option String) :
    unmarshal (struct importKeyFields) {} (document style (keyDocument id secret name)) = some ⟨id, secret, name⟩ := by
  have hdepth : (keyDocument id secret name).depth = 1 := by cases name <;> rfl
  have hfits : (keyDocument id secret name).depth ≤ maxNestingDepth := by
    rw [hdepth]
    decide
  rw [unmarshal, parse_document]
  show (if _ then _ else _) = _
  rw [if_pos hfits]
  cases name <;> rfl

theorem Form.body_eq {form : Form.ImportKeyForm} {body : Form.ImportKeyBody}
    (h : (Form.validateImportKey form).body = some body) :
    body = ⟨trim form.accessKeyId, trim form.secretAccessKey,
      if trim form.name = [] then none else some (trim form.name)⟩ := by
  dsimp only [Form.validateImportKey] at h
  split_ifs at h <;> exact (Option.some.inj h).symm ▸ by simp_all

theorem trimmedName_blank : trimmedName (asText []) = none := by decide

/-- **Whatever the client**, Garage is asked nothing and the answer is a 400 or a 413, or Garage is asked once, in a
document that says exactly which pair and which name, to import a pair that its own check takes; the name, if there
is one, is not blank; and the audit log notes the same key, if its id is no longer than 32 characters. -/
theorem import_key_checked {incoming : Incoming} {log : MutationLog Bytes} {resp : Response}
    (h : Runs (handleImportKey incoming) log resp) :
    (log = [] ∧ (resp.status = 413 ∨ resp.status = 400)) ∨
      ∃ id secret name garageBody reply, Acceptable (bytes id) (bytes secret) ∧
        (∀ n, name = some n → ∃ given, trimSpace (bytes given) ≠ [] ∧ n = toText (trimSpace (bytes given))) ∧
        Json.parse garageBody = some (keyDocument id secret name) ∧
        log = sent "/v2/ImportKey" garageBody reply ∧ resp = forwardResponse reply ∧
        Audit.auditDetail "POST" (bytes "/api/keys/import") incoming =
          if id.toList.length ≤ 32 then some [("accessKeyId", .str id)] else none := by
  obtain hdown | ⟨data, req, reply, rfl, hlen, hreq, hvalid, hlog, hresp⟩ := runs_handleImportKey h
  · exact .inl hdown
  · have hacceptable := validateImportKey_eq.mp hvalid
    refine .inr ⟨_, _, _, _, reply, hacceptable, fun n hn => ?_, parse_document marshal _, hlog, hresp,
      auditDetail_import hlen hreq hacceptable⟩
    obtain ⟨given, -, hgiven⟩ := Option.bind_eq_some_iff.mp hn
    unfold trimmedName at hgiven
    split_ifs at hgiven with hblank
    exact ⟨given, hblank, (Option.some.inj hgiven).symm⟩

def migratedKey : Incoming := .complete (bytes
  "\x7b\"accessKeyId\": \"GK-old.cluster\", \"name\": \" backup \", \"secretAccessKey\": \"0123456789abcdef\"\x7d")

theorem import_key_checked_migrated : ∃ log resp, Runs (handleImportKey migratedKey) log resp ∧
    ((log = [] ∧ (resp.status = 413 ∨ resp.status = 400)) ∨
      ∃ id secret name garageBody reply, Acceptable (bytes id) (bytes secret) ∧
        (∀ n, name = some n → ∃ given, trimSpace (bytes given) ≠ [] ∧ n = toText (trimSpace (bytes given))) ∧
        Json.parse garageBody = some (keyDocument id secret name) ∧
        log = sent "/v2/ImportKey" garageBody reply ∧ resp = forwardResponse reply ∧
        Audit.auditDetail "POST" (bytes "/api/keys/import") migratedKey =
          if id.toList.length ≤ 32 then some [("accessKeyId", .str id)] else none) := by
  have hreq : unmarshal (struct importKeyFields) {} migratedKey.received =
      some ⟨"GK-old.cluster", "0123456789abcdef", some " backup "⟩ := by decide +kernel
  have hvalid : validateImportKey ⟨"GK-old.cluster", "0123456789abcdef", some " backup "⟩ = "" := by decide +kernel
  have hread : readRequestBody maxImportKeyBodyBytes migratedKey = .ok migratedKey.received := by
    unfold readRequestBody
    rw [if_neg (by decide +kernel)]
    rfl
  have hrun : Runs (Garage.proxyGarageMutation "/v2/ImportKey" (importBody
      ⟨"GK-old.cluster", "0123456789abcdef", some " backup "⟩)) _ _ :=
    Garage.runs_proxyGarageMutation.mpr ⟨.unreachable, rfl, rfl⟩
  rw [← handleImportKey_of_valid hread hreq hvalid] at hrun
  exact ⟨_, _, hrun, import_key_checked hrun⟩

end GarageConsole.Keys
