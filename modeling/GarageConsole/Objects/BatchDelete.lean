import Mathlib.Data.List.Nodup
import GarageConsole.Foundations.Chunks
import GarageConsole.Foundations.JsonText
import GarageConsole.Objects.S3

/-! # Deleting a list of objects

`handleBatchDeleteObjects` sends the distinct keys of its body to S3 in chunks of 1000. A request that
fails as a whole ends the loop: its keys are listed as errors, those of the chunks after it are not.
`batch_delete_accounts_iff` says when the answer nevertheless accounts for every key.
-/

namespace GarageConsole.Objects

open Foundations Foundations.Text Foundations.GoJson Foundations.JsonText Foundations.Calls Foundations.Chunks
  GarageConsole.Garage

set_option autoImplicit false

def deleteObjectsChunk : ℕ := 1000

def maxBatchDeleteKeys : ℕ := 10000

def maxKeysBodyBytes : ℕ := 16 * 1024 * 1024

structure BatchDeleteResponse where
  deleted : ℕ
  errors : List BatchDeleteError
  truncated : Bool := false
  deriving DecidableEq

def deleteChunks (bucket : String) :
    List (List String) → ℕ → List BatchDeleteError → S3Prog (ℕ × List BatchDeleteError × Option S3Error)
  | [], deleted, errs => return (deleted, errs, none)
  | keys :: rest, deleted, errs => .call (.deleteObjects bucket keys) fun
    | .error e =>
      return (deleted, errs ++ keys.map fun k => ⟨k, (s3ErrorStatus e).2, e.message⟩, some e)
    | .ok out => deleteChunks bucket rest (deleted + out.deleted.length) (errs ++ out.errors)

def deleteKeys (bucket : String) (keys : List String) : S3Prog (ℕ × List BatchDeleteError × Option S3Error) :=
  deleteChunks bucket (chunks deleteObjectsChunk keys) 0 []

/-- The keys of the body; the decoder reads up to the limit and not past the first value. -/
def decodeBatchDelete (incoming : Incoming) : Option (List String) :=
  (decodeFirst (struct [("keys", reusedSlice "" string)]) {} (incoming.received.take maxKeysBodyBytes)).map
    fun keys => keys.items.getD []

/-- The distinct non-empty keys, each at its first position. -/
def distinctKeys (keys : List String) : List String := (keys.filter fun k => k ≠ "").eraseDups

/-- What the handler does: a response that is an error, or the 200 with its body; and whether it drops
the cached lists. -/
structure BatchDeleteOutcome where
  answer : Except Response BatchDeleteResponse
  invalidates : Bool

/-- `DELETE /api/objects/{bucket}/batch`. -/
def handleBatchDeleteObjects (bucket : String) (incoming : Incoming) : S3Prog BatchDeleteOutcome :=
  match decodeBatchDelete incoming with
  | none => return ⟨.error (writeObjectError 400 "invalid request body" ""), false⟩
  | some requested =>
    let keys := distinctKeys requested
    if keys = [] then
      return ⟨.error (writeObjectError 400 "keys array is required and must not be empty" ""), false⟩
    else if maxBatchDeleteKeys < keys.length then
      return ⟨.error (writeObjectError 400
        ("too many keys: " ++ toString keys.length ++ " (max " ++ toString maxBatchDeleteKeys ++ ")")
        "TooManyKeys"), false⟩
    else do
      let (deleted, errs, err) ← deleteKeys bucket keys
      match err with
      | some e =>
        if deleted = 0 then return ⟨.error (writeS3Error e "failed to delete objects"), false⟩
        else return ⟨.ok { deleted := deleted, errors := errs }, true⟩
      | none => return ⟨.ok { deleted := deleted, errors := errs }, decide (0 < deleted)⟩

/-- What the UI keeps selected after a 200: the keys that failed. -/
def selectedAfter (r : BatchDeleteResponse) : List String := r.errors.map BatchDeleteError.key

/-! ## The requests of a run -/

def requestedKeys (log : S3Log) : List String :=
  log.flatMap fun e => match e with
    | ⟨.deleteObjects _ keys, _⟩ => keys

def deletedKeys (log : S3Log) : List String :=
  log.flatMap fun e => match e with
    | ⟨.deleteObjects _ _, .ok out⟩ => out.deleted
    | ⟨.deleteObjects _ _, .error _⟩ => []

def RequestFailed (log : S3Log) : Prop := ∃ bucket keys e, ⟨.deleteObjects bucket keys, .error e⟩ ∈ log

/-- An answered request names each of its keys once, as deleted or as an error. -/
def AnswersEachKey (log : S3Log) : Prop :=
  ∀ bucket keys out, ⟨.deleteObjects bucket keys, .ok out⟩ ∈ log →
    (out.deleted ++ out.errors.map BatchDeleteError.key).Perm keys

/-- The requests are for this bucket. -/
def InBucket (bucket : String) (log : S3Log) : Prop := ∀ e ∈ log, ∃ keys, e.1 = .deleteObjects bucket keys

theorem requestedKeys_cons (bucket : String) (keys : List String) (reply : Except S3Error DeleteOutput) (log : S3Log) :
    requestedKeys (⟨.deleteObjects bucket keys, reply⟩ :: log) = keys ++ requestedKeys log := rfl

theorem deletedKeys_ok (bucket : String) (keys : List String) (out : DeleteOutput) (log : S3Log) :
    deletedKeys (⟨.deleteObjects bucket keys, .ok out⟩ :: log) = out.deleted ++ deletedKeys log := rfl

theorem RequestFailed.cons {log : S3Log} (h : RequestFailed log) (e : Exchange S3Call S3Call.Ans) :
    RequestFailed (e :: log) := by
  obtain ⟨bucket, keys, error, hmem⟩ := h
  exact ⟨bucket, keys, error, List.mem_cons_of_mem _ hmem⟩

theorem AnswersEachKey.tail {log : S3Log} {e : Exchange S3Call S3Call.Ans} (h : AnswersEachKey (e :: log)) :
    AnswersEachKey log :=
  fun bucket keys out hmem => h bucket keys out (List.mem_cons_of_mem _ hmem)

/-! ## What one deletion leaves -/

/-- What `deleteChunks` returns for the calls of a log, starting from nothing: the deleted keys are
counted, and with the listed ones they are the requested keys, each once. An error says that the last
request failed, and no error that every chunk was requested. -/
structure DeletionOf (keys : List String) (log : S3Log) (deleted : ℕ) (errs : List BatchDeleteError)
    (err : Option S3Error) : Prop where
  counted : deleted = (deletedKeys log).length
  accounted : (deletedKeys log ++ errs.map BatchDeleteError.key).Perm (requestedKeys log)
  requested : requestedKeys log <+: keys
  failed : err.isSome = true ↔ RequestFailed log
  complete : err = none → requestedKeys log = keys

theorem deleteChunks_runs {bucket : String} :
    ∀ {chunks : List (List String)} {deleted : ℕ} {errs : List BatchDeleteError} {log : S3Log}
      {out : ℕ × List BatchDeleteError × Option S3Error},
      Runs (deleteChunks bucket chunks deleted errs) log out → AnswersEachKey log →
        ∃ d es err, out = (deleted + d, errs ++ es, err) ∧ DeletionOf chunks.flatten log d es err
  | [], deleted, errs, log, out, hrun, _ => by
      obtain ⟨rfl, rfl⟩ := runs_ret.mp hrun
      refine ⟨0, [], none, by simp, rfl, by simp [deletedKeys, requestedKeys], by simp [requestedKeys], ?_, ?_⟩
      · simp [RequestFailed]
      · intro _
        rfl
  | keys :: rest, deleted, errs, log, out, hrun, hs3 => by
      obtain ⟨reply, log, rfl, hrest⟩ := runs_call.mp hrun
      cases reply with
      | error e =>
        -- the request fails: its keys are listed and the loop ends
        obtain ⟨rfl, rfl⟩ := runs_ret.mp hrest
        refine ⟨0, _, some e, rfl, rfl, ?_, ?_, ?_, nofun⟩
        · simp [deletedKeys, requestedKeys, Function.comp_def]
        · simp [requestedKeys]
        · simp only [Option.isSome_some, true_iff]
          exact ⟨bucket, keys, e, List.mem_singleton_self _⟩
      | ok answer =>
        obtain ⟨d, es, err, rfl, h⟩ := deleteChunks_runs hrest hs3.tail
        refine ⟨answer.deleted.length + d, answer.errors ++ es, err, ?_, ?_, ?_, ?_, ?_, ?_⟩
        · rw [Nat.add_assoc, List.append_assoc]
        · rw [deletedKeys_ok, List.length_append, h.counted]
        · have hchunk := hs3 bucket keys answer List.mem_cons_self
          have hperm := hchunk.append h.accounted
          rw [requestedKeys_cons, deletedKeys_ok, List.map_append]
          refine List.Perm.trans ?_ hperm
          simp only [List.append_assoc]
          refine List.Perm.append_left _ ?_
          rw [← List.append_assoc, ← List.append_assoc]
          exact List.Perm.append_right _ List.perm_append_comm
        · rw [requestedKeys_cons, List.flatten_cons]
          exact List.prefix_append_right_inj keys |>.mpr h.requested
        · rw [h.failed]
          constructor
          · exact fun hf => hf.cons _
          · rintro ⟨b, ks, e, hmem⟩
            rcases List.mem_cons.mp hmem with heq | hmem
            · cases heq
            · exact ⟨b, ks, e, hmem⟩
        · intro hnone
          rw [requestedKeys_cons, List.flatten_cons, h.complete hnone]

theorem deleteChunks_inBucket {bucket : String} :
    ∀ {chunks : List (List String)} {deleted : ℕ} {errs : List BatchDeleteError} {log : S3Log}
      {out : ℕ × List BatchDeleteError × Option S3Error},
      Runs (deleteChunks bucket chunks deleted errs) log out → InBucket bucket log
  | [], _, _, _, _, hrun => by
      obtain ⟨rfl, -⟩ := runs_ret.mp hrun
      exact fun e he => absurd he List.not_mem_nil
  | keys :: rest, _, _, _, _, hrun => by
      obtain ⟨reply, log, rfl, hrest⟩ := runs_call.mp hrun
      refine List.forall_mem_cons.mpr ⟨⟨keys, rfl⟩, ?_⟩
      cases reply with
      | error e =>
        obtain ⟨rfl, -⟩ := runs_ret.mp hrest
        exact fun e he => absurd he List.not_mem_nil
      | ok answer => exact deleteChunks_inBucket hrest

theorem deleteKeys_inBucket {bucket : String} {keys : List String} {log : S3Log}
    {out : ℕ × List BatchDeleteError × Option S3Error} (hrun : Runs (deleteKeys bucket keys) log out) :
    InBucket bucket log := deleteChunks_inBucket hrun

theorem deleteKeys_runs {bucket : String} {keys : List String} {log : S3Log}
    {out : ℕ × List BatchDeleteError × Option S3Error} (hrun : Runs (deleteKeys bucket keys) log out)
    (hs3 : AnswersEachKey log) : DeletionOf keys log out.1 out.2.1 out.2.2 := by
  obtain ⟨d, es, err, rfl, h⟩ := deleteChunks_runs hrun hs3
  rw [flatten_chunks (by decide)] at h
  simpa using h

/-! ## The handler -/

/-- Every distinct non-empty key of the body is counted as deleted or stays selected for a retry. -/
def Accounts (incoming : Incoming) (log : S3Log) (r : BatchDeleteResponse) : Prop :=
  ∃ requested, decodeBatchDelete incoming = some requested ∧
    r.deleted + r.errors.length = (distinctKeys requested).length ∧
    ∀ k ∈ distinctKeys requested, k ∉ deletedKeys log → k ∈ selectedAfter r

theorem DeletionOf.accounts_iff {incoming : Incoming} {requested : List String} {log : S3Log} {deleted : ℕ}
    {errs : List BatchDeleteError} {err : Option S3Error} (hdec : decodeBatchDelete incoming = some requested)
    (h : DeletionOf (distinctKeys requested) log deleted errs err) :
    Accounts incoming log { deleted := deleted, errors := errs } ↔
      requestedKeys log = distinctKeys requested := by
  have hlen := h.accounted.length_eq
  rw [List.length_append, List.length_map, ← h.counted] at hlen
  constructor
  · rintro ⟨requested', hdec', hsum, -⟩
    rw [hdec] at hdec'
    obtain rfl := Option.some.inj hdec'
    exact h.requested.eq_of_length (hlen.symm.trans hsum)
  · intro heq
    refine ⟨requested, hdec, hlen.trans (by rw [heq]), ?_⟩
    intro k hk hnot
    rw [← heq, ← h.accounted.mem_iff, List.mem_append] at hk
    exact hk.resolve_left hnot

/-- A run of the handler is refused before any call, or it is one of `deleteKeys`, answered with an
error only when nothing was deleted before a request failed. -/
theorem handleBatchDeleteObjects_runs {bucket : String} {incoming : Incoming} {log : S3Log}
    {outcome : BatchDeleteOutcome} (hrun : Runs (handleBatchDeleteObjects bucket incoming) log outcome) :
    (log = [] ∧ ∃ response, outcome.answer = .error response) ∨
      ∃ requested, decodeBatchDelete incoming = some requested ∧ ∃ d errs err,
        Runs (deleteKeys bucket (distinctKeys requested)) log (d, errs, err) ∧
        outcome.answer = match err with
          | some e => if d = 0 then .error (writeS3Error e "failed to delete objects")
              else .ok { deleted := d, errors := errs }
          | none => .ok { deleted := d, errors := errs } := by
  unfold handleBatchDeleteObjects at hrun
  cases hdec : decodeBatchDelete incoming with
  | none =>
    rw [hdec] at hrun
    obtain ⟨rfl, rfl⟩ := runs_ret.mp hrun
    exact .inl ⟨rfl, _, rfl⟩
  | some requested =>
    rw [hdec] at hrun
    dsimp only at hrun
    split_ifs at hrun
    · obtain ⟨rfl, rfl⟩ := runs_ret.mp hrun
      exact .inl ⟨rfl, _, rfl⟩
    · obtain ⟨rfl, rfl⟩ := runs_ret.mp hrun
      exact .inl ⟨rfl, _, rfl⟩
    · obtain ⟨l, ⟨d, errs, err⟩, r, rfl, hkeys, hret⟩ := runs_bind.mp hrun
      refine .inr ⟨requested, rfl, d, errs, err, ?_⟩
      cases err with
      | none =>
        obtain ⟨rfl, rfl⟩ := runs_ret.mp hret
        exact ⟨by simpa using hkeys, rfl⟩
      | some e =>
        dsimp only at hret
        split_ifs at hret with hd <;> obtain ⟨rfl, rfl⟩ := runs_ret.mp hret
        · exact ⟨by simpa using hkeys, by simp [hd]⟩
        · exact ⟨by simpa using hkeys, by simp [hd]⟩

/-- **When a batch deletion accounts for every key.** On every run against an S3 that answers each key
once, the 200 accounts for every key exactly when no request failed, or every key was in some request,
or nothing was deleted. -/
theorem batch_delete_accounts_iff {bucket : String} {incoming : Incoming} {log : S3Log}
    {outcome : BatchDeleteOutcome} (hrun : Runs (handleBatchDeleteObjects bucket incoming) log outcome)
    (hs3 : AnswersEachKey log) :
    (∀ r, outcome.answer = .ok r → Accounts incoming log r) ↔
      ¬RequestFailed log ∨
        (∃ requested, decodeBatchDelete incoming = some requested ∧ requestedKeys log = distinctKeys requested) ∨
        deletedKeys log = [] := by
  rcases handleBatchDeleteObjects_runs hrun with
    ⟨rfl, response, hrefused⟩ | ⟨requested, hdec, d, errs, err, hkeys, hout⟩
  · -- refused without a call
    have hno : ¬RequestFailed [] := by simp [RequestFailed]
    simp [hrefused, hno]
  · have h : DeletionOf (distinctKeys requested) log d errs err := deleteKeys_runs hkeys hs3
    have hdeleted : d = 0 ↔ deletedKeys log = [] := by
      rw [h.counted, List.length_eq_zero_iff]
    cases err with
    | none =>
      have hno : ¬RequestFailed log := by simpa using h.failed
      have hok : ∀ r, outcome.answer = .ok r → Accounts incoming log r := by
        intro r hr
        obtain rfl : _ = r := Except.ok.inj (hout.symm.trans hr)
        exact (h.accounts_iff hdec).mpr (h.complete rfl)
      exact ⟨fun _ => .inl hno, fun _ => hok⟩
    | some e =>
      have hfailed : RequestFailed log := h.failed.mp rfl
      have hany : (∃ requested', decodeBatchDelete incoming = some requested' ∧
          requestedKeys log = distinctKeys requested') ↔ requestedKeys log = distinctKeys requested := by
        simp [hdec]
      rw [hany, ← hdeleted]
      by_cases hd : d = 0
      · have hno : ∀ r, outcome.answer ≠ .ok r := by simp [hout, hd]
        simp [hd, hno]
      · have hanswer : outcome.answer = .ok { deleted := d, errors := errs } := by simp [hout, hd]
        simp [hanswer, hd, hfailed, h.accounts_iff hdec]

/-! ## Bodies as the UI writes them -/

theorem items_strings (strs : List String) : items "" string [] (strs.map .str) = some strs := by
  induction strs with
  | nil => rfl
  | cons s strs ih => simp [items, string, ih]

theorem reusedSlice_strings (strs : List String) :
    reusedSlice "" string {} (.arr (strs.map .str)) = some { items := some strs } := by
  cases strs with
  | nil => rfl
  | cons s strs =>
    have hitems := items_strings (s :: strs)
    rw [List.map_cons] at hitems ⊢
    simp only [reusedSlice, GoSlice.held, Option.getD_none, List.nil_append, hitems, Option.map_some, List.drop_nil]

theorem depthItems_strings (strs : List String) : Json.depthItems (strs.map .str) = 0 := by
  induction strs with
  | nil => rfl
  | cons s strs ih => simp [Json.depthItems, Json.depth, ih]

def keysBody (keys : List Bytes) : Bytes := stringsDocument (bytes "keys") keys

theorem decodeBatchDelete_keysBody {keys : List Bytes} (hne : keys ≠ []) (hplain : ∀ k ∈ keys, ∀ b ∈ k, Plain b)
    (hsize : (keysBody keys).length ≤ maxKeysBodyBytes) :
    decodeBatchDelete (.complete (keysBody keys)) = some (keys.map plainText) := by
  obtain ⟨k, more, rfl⟩ := List.exists_cons_of_ne_nil hne
  have hname : ∀ b ∈ bytes "keys", Plain b := by
    unfold Plain
    decide +kernel
  have hkeys : plainText (bytes "keys") = "keys" := by decide
  have hparse := parsePrefix_stringsDocument hname hplain
  rw [show (fun s => Json.str (plainText s)) = Json.str ∘ plainText from rfl, ← List.map_map, hkeys] at hparse
  have hdepth : (Json.obj [("keys", .arr (((k :: more).map plainText).map .str))]).depth ≤ maxNestingDepth := by
    simp only [Json.depth, Json.depthMembers, depthItems_strings]
    rw [maxNestingDepth]
    omega
  rw [decodeBatchDelete, Incoming.received, List.take_of_length_le hsize, decodeFirst, keysBody, hparse]
  simp only [Option.bind_eq_bind, Option.bind_some, if_pos hdepth, struct_obj, List.foldlM_cons, List.foldlM_nil,
    storeMember_singleton, if_true, reusedSlice_strings, Option.pure_def, Option.map_some, Option.getD_some]

theorem runs_handleBatchDeleteObjects {bucket : String} {incoming : Incoming} {requested : List String} {log : S3Log}
    {d : ℕ} {errs : List BatchDeleteError} {err : Option S3Error} (hdec : decodeBatchDelete incoming = some requested)
    (hne : distinctKeys requested ≠ []) (hmax : (distinctKeys requested).length ≤ maxBatchDeleteKeys) (hd : 0 < d)
    (hkeys : Runs (deleteKeys bucket (distinctKeys requested)) log (d, errs, err)) :
    Runs (handleBatchDeleteObjects bucket incoming) log ⟨.ok { deleted := d, errors := errs }, true⟩ := by
  unfold handleBatchDeleteObjects
  rw [hdec]
  dsimp only
  rw [if_neg hne, if_neg (by omega : ¬maxBatchDeleteKeys < _)]
  refine runs_bind.mpr ⟨log, (d, errs, err), [], by simp, hkeys, ?_⟩
  cases err with
  | none =>
    simp [hd]
  | some e =>
    dsimp only
    rw [if_neg (by omega : ¬d = 0)]
    exact .ret _

theorem chunks_of_three (l : List String) (h : l.length = 2001) :
    chunks deleteObjectsChunk l = [l.take 1000, (l.drop 1000).take 1000, (l.drop 2000).take 1000] := by
  rw [chunks, h]
  rfl

def secondFails (keys : List String) : S3Log :=
  [⟨.deleteObjects "bucket" (keys.take 1000), .ok ⟨keys.take 1000, []⟩⟩,
   ⟨.deleteObjects "bucket" ((keys.drop 1000).take 1000), .error ⟨"request timeout", none⟩⟩]

theorem secondFails_answersEachKey (keys : List String) : AnswersEachKey (secondFails keys) := by
  intro bucket chunk out hmem
  simp only [secondFails, List.mem_cons, Sigma.mk.injEq, List.not_mem_nil, or_false] at hmem
  rcases hmem with ⟨hreq, hans⟩ | ⟨hreq, hans⟩
  · obtain ⟨-, rfl⟩ := S3Call.deleteObjects.inj hreq
    obtain rfl := Except.ok.inj (eq_of_heq hans)
    simp
  · cases hreq
    cases hans

theorem runs_secondFails (keys : List String) (h : keys.length = 2001) :
    Runs (deleteKeys "bucket" keys) (secondFails keys)
      (1000, ((keys.drop 1000).take 1000).map fun k => ⟨k, "", "request timeout"⟩, some ⟨"request timeout", none⟩) := by
  have hlen : 0 + (keys.take 1000).length = 1000 := by simp [h]
  rw [deleteKeys, chunks_of_three keys h, deleteChunks, runs_call]
  refine ⟨_, _, rfl, ?_⟩
  dsimp only
  rw [deleteChunks, runs_call]
  refine ⟨_, _, rfl, ?_⟩
  dsimp only
  rw [hlen]
  exact .ret _

theorem secondFails_loses_key {incoming : Incoming} {keys : List String}
    (hdec : decodeBatchDelete incoming = some keys) (hdistinct : distinctKeys keys = keys)
    (hlen : keys.length = 2001) :
    ∃ outcome, Runs (handleBatchDeleteObjects "bucket" incoming) (secondFails keys) outcome ∧
      ¬∀ r, outcome.answer = .ok r → Accounts incoming (secondFails keys) r := by
  have hne : distinctKeys keys ≠ [] := by
    rw [hdistinct]
    rintro rfl
    simp at hlen
  have hmax : (distinctKeys keys).length ≤ maxBatchDeleteKeys := by
    rw [hdistinct, hlen]
    decide
  have hruns := runs_secondFails keys hlen
  rw [← congrArg (deleteKeys "bucket") hdistinct] at hruns
  refine ⟨_, runs_handleBatchDeleteObjects hdec hne hmax (by decide) hruns, ?_⟩
  intro hall
  obtain ⟨requested, hdec', hsum, -⟩ := hall _ rfl
  rw [hdec] at hdec'
  obtain rfl := Option.some.inj hdec'
  simp only [hdistinct, List.length_map, List.length_take, List.length_drop, hlen] at hsum
  omega

/-- 2001 keys: `a`, `aa`, `aaa` and so on. -/
def manyKeys : List Bytes := (List.range 2001).map fun i => List.replicate (i + 1) 0x61

theorem plain_of_mem_manyKeys {k : Bytes} (hk : k ∈ manyKeys) {b : UInt8} (hb : b ∈ k) : Plain b := by
  obtain ⟨i, -, rfl⟩ := List.mem_map.mp hk
  rw [List.eq_of_mem_replicate hb]
  unfold Plain
  decide

theorem length_of_mem_manyKeys {k : Bytes} (hk : k ∈ manyKeys) : k.length ≤ 2001 := by
  obtain ⟨i, hi, rfl⟩ := List.mem_map.mp hk
  have := List.mem_range.mp hi
  rw [List.length_replicate]
  omega

theorem length_plainText (bs : Bytes) : (plainText bs).length = bs.length := by
  simp [plainText]

theorem distinctKeys_manyKeys : distinctKeys (manyKeys.map plainText) = manyKeys.map plainText := by
  have hnodup : (manyKeys.map plainText).Nodup := by
    rw [manyKeys, List.map_map]
    refine List.Nodup.map ?_ List.nodup_range
    intro i j hij
    have := congrArg String.length hij
    simp only [Function.comp_apply, length_plainText, List.length_replicate] at this
    omega
  have hfilter : (manyKeys.map plainText).filter (fun k => k ≠ "") = manyKeys.map plainText := by
    rw [List.filter_eq_self]
    intro k hk
    obtain ⟨bs, hbs, rfl⟩ := List.mem_map.mp hk
    obtain ⟨i, -, rfl⟩ := List.mem_map.mp hbs
    have hlen := length_plainText (List.replicate (i + 1) 0x61)
    simp only [ne_eq, decide_eq_true_eq]
    intro hempty
    rw [hempty, List.length_replicate] at hlen
    simp at hlen
  rw [distinctKeys, hfilter, eraseDups_of_nodup hnodup]

theorem length_manyKeys : (manyKeys.map plainText).length = 2001 := by
  rw [List.length_map, manyKeys, List.length_map, List.length_range]

theorem manyKeys_ne_nil : manyKeys ≠ [] := by
  intro h
  have := length_manyKeys
  rw [h] at this
  cases this

theorem decodeBatchDelete_manyKeys :
    decodeBatchDelete (.complete (keysBody manyKeys)) = some (manyKeys.map plainText) := by
  refine decodeBatchDelete_keysBody manyKeys_ne_nil (fun k hk b hb => plain_of_mem_manyKeys hk hb) ?_
  have hbound := length_closeItems_le (fun s hs => length_of_mem_manyKeys hs) [0x7D]
  rw [← List.length_map plainText, length_manyKeys] at hbound
  have hname : (bytes "keys").length = 4 := by decide
  rw [keysBody, stringsDocument, closeQuote, List.length_cons, List.length_cons, List.length_append,
    List.length_cons, List.length_cons, List.length_cons, hname, maxKeysBodyBytes]
  rw [List.length_singleton] at hbound
  omega

theorem batch_delete_loses_key :
    AnswersEachKey (secondFails (manyKeys.map plainText)) ∧
      ∃ outcome, Runs (handleBatchDeleteObjects "bucket" (.complete (keysBody manyKeys)))
          (secondFails (manyKeys.map plainText)) outcome ∧
        ¬∀ r, outcome.answer = .ok r →
          Accounts (.complete (keysBody manyKeys)) (secondFails (manyKeys.map plainText)) r :=
  ⟨secondFails_answersEachKey _,
    secondFails_loses_key decodeBatchDelete_manyKeys distinctKeys_manyKeys length_manyKeys⟩

def refusesSecond : S3Log :=
  [⟨.deleteObjects "bucket" ["a", "b"], .ok ⟨["a"], [⟨"b", "AccessDenied", "denied"⟩]⟩⟩]

def twoKeysBody : Incoming := .complete (keysBody [bytes "a", bytes "b"])

theorem runs_refusesSecond : Runs (handleBatchDeleteObjects "bucket" twoKeysBody) refusesSecond
    ⟨.ok { deleted := 1, errors := [⟨"b", "AccessDenied", "denied"⟩] }, true⟩ := by
  have hdec : decodeBatchDelete twoKeysBody = some ["a", "b"] := by decide +kernel
  have hkeys : distinctKeys ["a", "b"] = ["a", "b"] := by decide
  have hchunks : chunks deleteObjectsChunk ["a", "b"] = [["a", "b"]] := by decide
  have hrun : Runs (deleteKeys "bucket" (distinctKeys ["a", "b"])) refusesSecond
      (1, [⟨"b", "AccessDenied", "denied"⟩], none) := by
    rw [hkeys, deleteKeys, hchunks, deleteChunks, runs_call]
    exact ⟨_, _, rfl, .ret _⟩
  exact runs_handleBatchDeleteObjects hdec (by decide) (by decide) (by decide) hrun

theorem batch_delete_accounts_two :
    (∀ r, (Except.ok { deleted := 1, errors := [⟨"b", "AccessDenied", "denied"⟩] } :
        Except Response BatchDeleteResponse) = .ok r → Accounts twoKeysBody refusesSecond r) ↔
      ¬RequestFailed refusesSecond ∨
        (∃ requested, decodeBatchDelete twoKeysBody = some requested ∧
          requestedKeys refusesSecond = distinctKeys requested) ∨
        deletedKeys refusesSecond = [] := by
  refine batch_delete_accounts_iff runs_refusesSecond ?_
  intro bucket keys out hmem
  simp only [refusesSecond, List.mem_singleton, Sigma.mk.injEq] at hmem
  obtain ⟨-, rfl⟩ := S3Call.deleteObjects.inj hmem.1
  obtain rfl := Except.ok.inj (eq_of_heq hmem.2)
  exact .refl _

end GarageConsole.Objects
