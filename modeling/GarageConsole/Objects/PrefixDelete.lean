import Mathlib.Data.String.Basic
import Mathlib.Logic.Function.Basic
import GarageConsole.Foundations.Listing
import GarageConsole.Objects.BatchDelete

/-! # Deleting what is under a prefix

`handleDeletePrefix` lists a page of keys, deletes them and lists again from the last of them on, until
nothing is left or `maxPrefixDeleteObjects` keys were sent. Keys that S3 refuses to delete stay where they
are; the next listing starts after them. The loop has a measure of its own, the room that is left, so it
ends whatever S3 answers.
-/

namespace GarageConsole.Objects

open Foundations Foundations.Calls Foundations.Chunks Foundations.Listing GarageConsole.Garage

set_option autoImplicit false

def maxPrefixDeleteObjects : ℕ := 10000

structure S3Object where
  key : String
  size : Int64
  deriving DecidableEq

/-- A ListObjectsV2 request; an empty `startAfter` is not sent. -/
structure ListObjectsV2 where
  bucket : String
  keyPrefix : String
  maxKeys : ℕ
  startAfter : String
  deriving DecidableEq

structure ListOutput where
  contents : List S3Object
  isTruncated : Bool
  deriving DecidableEq

abbrev PrefixReq := ListObjectsV2 ⊕ S3Call

abbrev PrefixAns : PrefixReq → Type := Sum.elim (fun _ => Except S3Error ListOutput) S3Call.Ans

abbrev PrefixProg (α : Type) := Prog PrefixReq PrefixAns α

abbrev PrefixLog := List (Exchange PrefixReq PrefixAns)

/-- The keys of a page that there is room for, and whether a further one was seen. -/
def pageKeys : ℕ → List S3Object → List String × Bool
  | _, [] => ([], false)
  | 0, _ :: _ => ([], true)
  | room + 1, obj :: rest => (obj.key :: (pageKeys room rest).1, (pageKeys room rest).2)

theorem pageKeys_eq (room : ℕ) (contents : List S3Object) :
    pageKeys room contents = ((contents.take room).map S3Object.key, decide (room < contents.length)) := by
  induction contents generalizing room with
  | nil => cases room <;> simp [pageKeys]
  | cons obj rest ih =>
    cases room with
    | zero => simp [pageKeys]
    | succ room => simp [pageKeys, ih]

/-- The end of the handler: the cached lists go when something was deleted. -/
def BatchDeleteResponse.finish (resp : BatchDeleteResponse) : BatchDeleteOutcome :=
  ⟨.ok resp, decide (0 < resp.deleted)⟩

/-- The loop, after `processed` keys. -/
def deletePages (bucket keyPrefix : String) (processed : ℕ) (startAfter : String) (resp : BatchDeleteResponse) :
    PrefixProg BatchDeleteOutcome :=
  .call (.inl ⟨bucket, keyPrefix, deleteObjectsChunk, startAfter⟩) fun
    | .error e =>
      if processed = 0 then return ⟨.error (writeS3Error e "failed to list objects"), false⟩
      else
        let stopped : BatchDeleteError := ⟨keyPrefix, "", "listing stopped: " ++ e.message⟩
        return { resp with errors := resp.errors ++ [stopped] }.finish
    | .ok page =>
      let found := pageKeys (maxPrefixDeleteObjects - processed) page.contents
      let resp := { resp with truncated := resp.truncated || found.2 }
      if hkeys : found.1 = [] then return resp.finish
      else do
        have hroom : maxPrefixDeleteObjects - (processed + found.1.length) < maxPrefixDeleteObjects - processed := by
          have hpos := List.length_pos_iff.mpr hkeys
          have hle : found.1.length ≤ maxPrefixDeleteObjects - processed := by
            simp only [found, pageKeys_eq, List.length_map, List.length_take]
            omega
          omega
        let (deleted, errs, err) ← (deleteKeys bucket found.1).inr
        let resp := { resp with deleted := resp.deleted + deleted, errors := resp.errors ++ errs }
        match err with
        | some e =>
          if resp.deleted = 0 then return ⟨.error (writeS3Error e "failed to delete objects"), false⟩
          else return resp.finish
        | none =>
          if resp.truncated ∨ ¬page.isTruncated then return resp.finish
          else deletePages bucket keyPrefix (processed + found.1.length) (found.1.getLast hkeys) resp
  termination_by maxPrefixDeleteObjects - processed

/-- `DELETE /api/objects/{bucket}/prefix`. -/
def handleDeletePrefix (bucket keyPrefix : String) : PrefixProg BatchDeleteOutcome :=
  if keyPrefix = "" then return ⟨.error (writeObjectError 400 "prefix parameter is required" ""), false⟩
  else deletePages bucket keyPrefix 0 "" { deleted := 0, errors := [] }

/-! ## A bucket -/

/-- What a bucket holds, in the order of the keys. -/
@[ext] structure Bucket where
  objects : List S3Object
  sorted : SortedBy S3Object.key objects

/-- `strings.HasPrefix`. -/
def startsWith (keyPrefix key : String) : Bool := keyPrefix.toList.isPrefixOf key.toList

namespace Bucket

def under (b : Bucket) (keyPrefix : String) : List S3Object := b.objects.filter fun o => startsWith keyPrefix o.key

def remove (b : Bucket) (keys : List String) : Bucket where
  objects := b.objects.filter fun o => o.key ∉ keys
  sorted := b.sorted.filter _

theorem remove_remove (b : Bucket) (keys keys' : List String) :
    (b.remove keys).remove keys' = b.remove (keys ++ keys') := by
  refine Bucket.ext ((List.filter_filter ..).trans ?_)
  refine List.filter_congr fun o _ => ?_
  simp [Bool.and_comm]

/-- What a listing of the prefix goes through, after a key or from the start. -/
def remaining (b : Bucket) (keyPrefix startAfter : String) : List S3Object :=
  if startAfter = "" then b.under keyPrefix else after S3Object.key startAfter (b.under keyPrefix)

theorem sorted_remaining (b : Bucket) (keyPrefix startAfter : String) :
    SortedBy S3Object.key (b.remaining keyPrefix startAfter) := by
  have hunder : SortedBy S3Object.key (b.under keyPrefix) := b.sorted.filter _
  unfold remaining
  split_ifs
  · exact hunder
  · exact hunder.filter _

theorem remove_nil (b : Bucket) : b.remove [] = b := Bucket.ext (List.filter_eq_self.mpr (by simp))

end Bucket

/-- What S3 holds, by bucket. -/
abbrev Store := String → Bucket

namespace Store

def remove (st : Store) (bucket : String) (keys : List String) : Store :=
  Function.update st bucket ((st bucket).remove keys)

theorem remove_same (st : Store) (bucket : String) (keys : List String) :
    st.remove bucket keys bucket = (st bucket).remove keys := Function.update_self ..

theorem remove_other (st : Store) {bucket other : String} (keys : List String) (h : other ≠ bucket) :
    st.remove bucket keys other = st other := Function.update_of_ne h ..

theorem remove_remove (st : Store) (bucket : String) (keys keys' : List String) :
    (st.remove bucket keys).remove bucket keys' = st.remove bucket (keys ++ keys') := by
  rw [remove, remove_same, Bucket.remove_remove, remove, Function.update_idem]
  rfl

theorem remove_nil (st : Store) (bucket : String) : st.remove bucket [] = st := by
  rw [remove, Bucket.remove_nil, Function.update_eq_self]

end Store

/-- A page of the listing `rest`: some of its first objects, at least one while there is any. -/
structure PageOf (rest : List S3Object) (limit : ℕ) (page : ListOutput) : Prop where
  first : page.contents <+: rest
  short : page.contents.length ≤ limit
  progress : 0 < limit → rest ≠ [] → page.contents ≠ []
  more : page.isTruncated = decide (page.contents.length < rest.length)

/-- S3. It may refuse to delete any of the keys; no request fails as a whole. -/
def s3 : Service Store PrefixReq PrefixAns
  | st, .inl r, reply, st' =>
    st' = st ∧ ∃ page : ListOutput, reply = Except.ok page ∧
      PageOf ((st r.bucket).remaining r.keyPrefix r.startAfter) r.maxKeys page
  | st, .inr (.deleteObjects bucket keys), reply, st' =>
    ∃ out : DeleteOutput, reply = Except.ok out ∧ (out.deleted ++ out.errors.map BatchDeleteError.key).Perm keys ∧
      st' = st.remove bucket out.deleted

/-- What is listed after the last key of a page is what follows the page, also when some of its keys were
deleted. -/
theorem remaining_remove {b : Bucket} {keyPrefix startAfter : String} {chunk rest : List S3Object} {x : S3Object}
    {deleted : List String} (hne : x.key ≠ "") (hlist : b.remaining keyPrefix startAfter = chunk ++ x :: rest)
    (hdeleted : ∀ k ∈ deleted, k ∈ (chunk ++ [x]).map S3Object.key) :
    (b.remove deleted).remaining keyPrefix x.key = rest := by
  have hsorted := b.sorted_remaining keyPrefix startAfter
  rw [hlist] at hsorted
  have hafter : after S3Object.key x.key (b.under keyPrefix) = rest := by
    have hrest := after_eq hsorted
    rw [← hlist] at hrest
    unfold Bucket.remaining at hlist hrest
    split_ifs at hlist hrest with hstart
    · exact hrest
    · have hx : startAfter < x.key := by
        have hmem : x ∈ after S3Object.key startAfter (b.under keyPrefix) := by simp [hlist]
        exact of_decide_eq_true (List.mem_filter.mp hmem).2
      rwa [after_after hx.le] at hrest
  have hkept : rest.filter (fun o => o.key ∉ deleted) = rest := by
    rw [List.filter_eq_self]
    intro o ho
    simp only [decide_eq_true_eq]
    intro hmem
    have hnodup := hsorted.nodup
    rw [List.append_cons, List.map_append, List.nodup_append] at hnodup
    exact hnodup.2.2 _ (hdeleted _ hmem) _ (List.mem_map_of_mem ho) rfl
  have hunder : (b.remove deleted).under keyPrefix = (b.under keyPrefix).filter fun o => o.key ∉ deleted :=
    List.filter_comm _ _ _
  calc (b.remove deleted).remaining keyPrefix x.key
      = after S3Object.key x.key ((b.under keyPrefix).filter fun o => o.key ∉ deleted) := by
        rw [Bucket.remaining, if_neg hne, hunder]
    _ = (after S3Object.key x.key (b.under keyPrefix)).filter fun o => o.key ∉ deleted := List.filter_comm _ _ _
    _ = rest := by rw [hafter, hkept]

/-! ## Deleting the keys of a page -/

/-- What S3 does when keys are deleted. -/
def deletesFrom : Service Store S3Call S3Call.Ans := s3.right

theorem deletesFrom_answers {bucket : String} {st st' : Store} {log : S3Log} (hbucket : InBucket bucket log)
    (hserved : Served deletesFrom st log st') :
    AnswersEachKey log ∧ ¬RequestFailed log ∧ st' = st.remove bucket (deletedKeys log) := by
  induction hserved with
  | nil st =>
    refine ⟨by simp [AnswersEachKey], by simp [RequestFailed], ?_⟩
    exact (st.remove_nil bucket).symm
  | @cons st st₁ st' r reply log hstep _ ih =>
    obtain ⟨⟨keys, rfl⟩, hrest⟩ := List.forall_mem_cons.mp hbucket
    obtain ⟨hanswers, hfailed, rfl⟩ := ih hrest
    obtain ⟨out, rfl, hperm, rfl⟩ := hstep
    refine ⟨?_, ?_, ?_⟩
    · intro bucket' keys' out' hmem
      rcases List.mem_cons.mp hmem with heq | hmem
      · obtain ⟨hreq, hans⟩ := Sigma.mk.inj heq
        obtain ⟨-, rfl⟩ := S3Call.deleteObjects.inj hreq
        obtain rfl := Except.ok.inj (eq_of_heq hans)
        exact hperm
      · exact hanswers bucket' keys' out' hmem
    · rintro ⟨bucket', keys', e, hmem⟩
      rcases List.mem_cons.mp hmem with heq | hmem
      · obtain ⟨hreq, hans⟩ := Sigma.mk.inj heq
        cases hreq
        cases hans
      · exact hfailed ⟨bucket', keys', e, hmem⟩
    · rw [deletedKeys_ok, Store.remove_remove]

/-- The keys of a page were sent: each was deleted or is listed. -/
structure PageDeleted (bucket : String) (st : Store) (keys : List String) (l : S3Log) (d : ℕ)
    (errs : List BatchDeleteError) (st₁ : Store) : Prop where
  sent : requestedKeys l = keys
  counted : d = (deletedKeys l).length
  accounted : (deletedKeys l ++ errs.map BatchDeleteError.key).Perm keys
  left : st₁ = st.remove bucket (deletedKeys l)

theorem deleteKeys_served {bucket : String} {keys : List String} {log : S3Log} {st st' : Store}
    {out : ℕ × List BatchDeleteError × Option S3Error} (hrun : Runs (deleteKeys bucket keys) log out)
    (hserved : Served deletesFrom st log st') : out.2.2 = none ∧ PageDeleted bucket st keys log out.1 out.2.1 st' := by
  obtain ⟨hanswers, hfailed, hleft⟩ := deletesFrom_answers (deleteKeys_inBucket hrun) hserved
  have h := deleteKeys_runs hrun hanswers
  have hnone : out.2.2 = none := by
    rw [← Option.not_isSome_iff_eq_none, h.failed]
    exact hfailed
  have hall := h.complete hnone
  exact ⟨hnone, hall, h.counted, hall ▸ h.accounted, hleft⟩

/-! ## The loop -/

def sentKeys (log : PrefixLog) : List String := requestedKeys (rights log)

/-- What a deletion leaves: `keys` were sent, each once; `d` of them were deleted and the others are listed. -/
structure DeletedFrom (bucket : String) (st : Store) (keys : List String) (log : PrefixLog) (d : ℕ)
    (errs : List BatchDeleteError) (st' : Store) : Prop where
  sent : sentKeys log = keys
  counted : d = (deletedKeys (rights log)).length
  accounted : (deletedKeys (rights log) ++ errs.map BatchDeleteError.key).Perm keys
  left : st' = st.remove bucket (deletedKeys (rights log))

theorem deletedKeys_append (l l' : S3Log) : deletedKeys (l ++ l') = deletedKeys l ++ deletedKeys l' :=
  List.flatMap_append

theorem requestedKeys_append (l l' : S3Log) : requestedKeys (l ++ l') = requestedKeys l ++ requestedKeys l' :=
  List.flatMap_append

/-- The deletion of one page followed by those after it. -/
theorem DeletedFrom.page {bucket : String} {st st₁ st' : Store} {keys keys' : List String} {l : S3Log}
    {log : PrefixLog} {d d' : ℕ} {errs errs' : List BatchDeleteError} {r : ListObjectsV2}
    {reply : Except S3Error ListOutput} (hpage : PageDeleted bucket st keys l d errs st₁)
    (h : DeletedFrom bucket st₁ keys' log d' errs' st') :
    DeletedFrom bucket st (keys ++ keys') (⟨.inl r, reply⟩ :: (l.map rightExchange ++ log)) (d + d') (errs ++ errs')
      st' := by
  have hrights : rights ((⟨.inl r, reply⟩ :: (l.map rightExchange ++ log)) : PrefixLog) = l ++ rights log := by
    change rights (l.map rightExchange ++ log) = _
    rw [rights_append, rights_map_right]
  refine ⟨?_, ?_, ?_, ?_⟩
  · rw [sentKeys, hrights, requestedKeys_append, hpage.sent]
    exact congrArg (keys ++ ·) h.sent
  · rw [hrights, deletedKeys_append, List.length_append, hpage.counted, h.counted]
  · rw [hrights, deletedKeys_append, List.map_append]
    refine List.Perm.trans ?_ (hpage.accounted.append h.accounted)
    simp only [List.append_assoc]
    refine List.Perm.append_left _ ?_
    rw [← List.append_assoc, ← List.append_assoc]
    exact List.Perm.append_right _ List.perm_append_comm
  · rw [hrights, deletedKeys_append, ← Store.remove_remove, ← hpage.left, h.left]

theorem deletedFrom_nothing (bucket : String) (st : Store) {log : PrefixLog} (hlog : rights log = []) :
    DeletedFrom bucket st [] log 0 [] st := by
  have hdeleted : deletedKeys (rights log) = [] := by rw [hlog, deletedKeys, List.flatMap_nil]
  refine ⟨?_, ?_, ?_, ?_⟩
  · rw [sentKeys, hlog, requestedKeys, List.flatMap_nil]
  · rw [hdeleted, List.length_nil]
  · rw [hdeleted]
    exact .refl _
  · rw [hdeleted, Store.remove_nil]

theorem DeletedFrom.lastPage {bucket : String} {st st₁ : Store} {keys : List String} {l : S3Log} {d : ℕ}
    {errs : List BatchDeleteError} {r : ListObjectsV2} {reply : Except S3Error ListOutput}
    (hpage : PageDeleted bucket st keys l d errs st₁) :
    DeletedFrom bucket st keys (⟨.inl r, reply⟩ :: (l.map rightExchange ++ [])) d errs st₁ := by
  have hnothing := deletedFrom_nothing bucket st₁ (rfl : rights ([] : PrefixLog) = [])
  have h : DeletedFrom bucket st (keys ++ []) (⟨.inl r, reply⟩ :: (l.map rightExchange ++ [])) (d + 0) (errs ++ [])
      st₁ := .page hpage hnothing
  rwa [List.append_nil keys, List.append_nil errs, Nat.add_zero] at h

/-- The loop ended: what there was room for was sent. -/
def Ended (bucket : String) (room : ℕ) (resp : BatchDeleteResponse) (st : Store) (rest : List S3Object)
    (log : PrefixLog) (out : BatchDeleteOutcome) (st' : Store) : Prop :=
  ∃ d errs, DeletedFrom bucket st ((rest.take room).map S3Object.key) log d errs st' ∧
    out = BatchDeleteResponse.finish ⟨resp.deleted + d, resp.errors ++ errs, decide (room < rest.length)⟩

/-- The loop deleted a page, all of which there was room for, and goes on after its last key `x`. -/
def GoesOn (bucket keyPrefix : String) (processed : ℕ) (resp : BatchDeleteResponse) (st : Store)
    (rest : List S3Object) (log : PrefixLog) (out : BatchDeleteOutcome) (st' : Store) : Prop :=
  ∃ init x tail r reply l log' d errs st₁,
    rest = init ++ x :: tail ∧ (init ++ [x]).length ≤ maxPrefixDeleteObjects - processed ∧
      log = ⟨.inl r, reply⟩ :: (l.map rightExchange ++ log') ∧
      PageDeleted bucket st ((init ++ [x]).map S3Object.key) l d errs st₁ ∧
      Runs (deletePages bucket keyPrefix (processed + (init ++ [x]).length) x.key
        ⟨resp.deleted + d, resp.errors ++ errs, false⟩) log' out ∧ Served s3 st₁ log' st'

/-- A page without keys to send: nothing was listed, or there is no room. -/
theorem ended_of_no_keys {bucket : String} {room : ℕ} {st : Store} {rest tail : List S3Object} {page : ListOutput}
    {resp : BatchDeleteResponse} {log : PrefixLog} (htail : page.contents ++ tail = rest)
    (hprogress : rest ≠ [] → page.contents ≠ []) (hkeys : page.contents.take room = []) (hlog : rights log = []) :
    Ended bucket room resp st rest log
      (BatchDeleteResponse.finish ⟨resp.deleted, resp.errors, decide (room < page.contents.length)⟩) st := by
  have hnone : rest.take room = [] ∧ decide (room < page.contents.length) = decide (room < rest.length) := by
    rcases List.take_eq_nil_iff.mp hkeys with rfl | hempty
    · refine ⟨List.take_zero, decide_eq_decide.mpr ?_⟩
      rw [List.length_pos_iff, List.length_pos_iff]
      refine ⟨?_, hprogress⟩
      rintro hne rfl
      exact hne (List.append_eq_nil_iff.mp htail).1
    · have hrest : rest = [] := by
        by_contra hsome
        exact hprogress hsome hempty
      rw [hrest, hempty]
      exact ⟨List.take_nil, rfl⟩
  refine ⟨0, [], ?_, ?_⟩
  · rw [hnone.1]
    exact deletedFrom_nothing _ _ hlog
  · rw [hnone.2, Nat.add_zero, List.append_nil]

/-- What one page makes of the loop. -/
theorem deletePages_turn {bucket keyPrefix startAfter : String} {processed : ℕ} {resp : BatchDeleteResponse}
    {log : PrefixLog} {out : BatchDeleteOutcome} {st st' : Store} {rest : List S3Object}
    (hrun : Runs (deletePages bucket keyPrefix processed startAfter resp) log out) (hserves : Served s3 st log st')
    (hrest : (st bucket).remaining keyPrefix startAfter = rest) (hresp : resp.truncated = false) :
    Ended bucket (maxPrefixDeleteObjects - processed) resp st rest log out st' ∨
      GoesOn bucket keyPrefix processed resp st rest log out st' := by
  rw [deletePages] at hrun
  obtain ⟨reply, log, rfl, hgo⟩ := runs_call.mp hrun
  obtain ⟨st₁, hlist, hserved⟩ := served_cons_exchange.mp hserves
  obtain ⟨rfl, page, rfl, hpage⟩ := hlist
  obtain ⟨tail, htail⟩ := hpage.first
  rw [hrest] at htail
  have hprogress := hpage.progress (Nat.zero_lt_succ 999)
  have hmore := hpage.more
  rw [hrest] at hprogress hmore
  have hlen : page.contents.length + tail.length = rest.length := by rw [← htail, List.length_append]
  simp only [pageKeys_eq, hresp, Bool.false_or, List.map_eq_nil_iff] at hgo
  generalize hroom : maxPrefixDeleteObjects - processed = room at hgo ⊢
  by_cases hkeys : page.contents.take room = []
  · rw [dif_pos hkeys] at hgo
    obtain ⟨rfl, rfl⟩ := runs_ret.mp hgo
    obtain rfl := served_nil.mp hserved
    exact .inl (ended_of_no_keys htail hprogress hkeys rfl)
  · rw [dif_neg hkeys] at hgo
    obtain ⟨l, ⟨d, errs, err⟩, log, rfl, hdel, hcont⟩ := runs_bind.mp hgo
    obtain ⟨l, rfl, hkeysrun⟩ := runs_inr.mp hdel
    obtain ⟨st₂, hserved₁, hserved₂⟩ := served_append.mp hserved
    obtain ⟨hnone, hdeleted⟩ := deleteKeys_served hkeysrun (served_map_right.mp hserved₁)
    dsimp only at hnone hdeleted hcont
    subst hnone
    dsimp only at hcont
    by_cases hfull : room < page.contents.length
    · -- the room ends within the page
      rw [if_pos (.inl (decide_eq_true hfull))] at hcont
      obtain ⟨rfl, rfl⟩ := runs_ret.mp hcont
      obtain rfl := served_nil.mp hserved₂
      have htake : rest.take room = page.contents.take room := by
        rw [← htail, List.take_append_of_le_length hfull.le]
      refine .inl ⟨d, errs, ?_, ?_⟩
      · rw [htake]
        exact .lastPage hdeleted
      · rw [decide_eq_true hfull, decide_eq_true (by omega : room < rest.length)]
    · have hall : page.contents.take room = page.contents := List.take_of_length_le (by omega)
      by_cases hmoreKeys : page.isTruncated = true
      · -- the next listing starts after the last key of the page
        rw [if_neg (by simp [hfull, hmoreKeys])] at hcont
        rcases List.eq_nil_or_concat' page.contents with hnil | ⟨init, x, hx⟩
        · exact absurd (hall.trans hnil) hkeys
        have hmap : (page.contents.take room).map S3Object.key = init.map S3Object.key ++ [x.key] := by
          rw [hall, hx, List.map_append, List.map_singleton]
        have hlast : ∀ h, ((page.contents.take room).map S3Object.key).getLast h = x.key := by
          intro h
          simp only [hmap, List.getLast_concat]
        rw [hlast, List.length_map, hall, hx, decide_eq_false (hx ▸ hfull)] at hcont
        rw [hall, hx] at hdeleted
        have hsplit : rest = init ++ x :: tail := by
          rw [← htail, hx, List.append_assoc, List.singleton_append]
        have hfits : (init ++ [x]).length ≤ room := by
          rw [← hx]
          omega
        rw [GoesOn, hroom]
        exact .inr ⟨init, x, tail, _, _, l, log, d, errs, st₂, hsplit, hfits, rfl, hdeleted, hcont, hserved₂⟩
      · -- everything was listed
        have htailNil : tail = [] := by
          rw [hmore, decide_eq_true_eq] at hmoreKeys
          rw [← List.length_eq_zero_iff]
          omega
        rw [htailNil, List.append_nil] at htail
        rw [if_pos (.inr hmoreKeys)] at hcont
        obtain ⟨rfl, rfl⟩ := runs_ret.mp hcont
        obtain rfl := served_nil.mp hserved₂
        refine .inl ⟨d, errs, ?_, ?_⟩
        · rw [← htail]
          exact .lastPage hdeleted
        · rw [htail]

/-- The whole loop. By strong induction on the room that is left. -/
theorem deletePages_served {bucket keyPrefix : String} (room : ℕ) :
    ∀ {processed : ℕ} {startAfter : String} {resp : BatchDeleteResponse} {log : PrefixLog}
      {out : BatchDeleteOutcome} {st st' : Store} {rest : List S3Object},
      maxPrefixDeleteObjects - processed = room →
      Runs (deletePages bucket keyPrefix processed startAfter resp) log out → Served s3 st log st' →
      (st bucket).remaining keyPrefix startAfter = rest → (∀ o ∈ rest, o.key ≠ "") → resp.truncated = false →
        Ended bucket room resp st rest log out st' := by
  induction room using Nat.strong_induction_on with
  | _ room ih =>
    intro processed startAfter resp log out st st' rest hroom hrun hserves hrest hne hresp
    rcases deletePages_turn hrun hserves hrest hresp with hended | hgoes
    · rwa [hroom] at hended
    · obtain ⟨init, x, tail, r, reply, l, log, d, errs, st₁, hsplit, hfits, rfl, hdeleted, hcont, hserved⟩ := hgoes
      rw [hroom] at hfits
      have hmem : ∀ k ∈ deletedKeys l, k ∈ (init ++ [x]).map S3Object.key := fun k hk =>
        hdeleted.accounted.subset (List.mem_append_left _ hk)
      have hx : x.key ≠ "" := hne x (by simp [hsplit])
      have hlisted : (st₁ bucket).remaining keyPrefix x.key = tail := by
        rw [hdeleted.left, Store.remove_same]
        exact remaining_remove hx (hrest.trans hsplit) hmem
      have hlength : (init ++ [x]).length = init.length + 1 := by
        rw [List.length_append, List.length_singleton]
      have hne' : ∀ o ∈ tail, o.key ≠ "" := fun o ho => hne o (by simp [hsplit, ho])
      obtain ⟨d', errs', hdeleted', hout⟩ :=
        ih (room - (init ++ [x]).length) (by omega) (by omega) hcont hserved hlisted hne' rfl
      have hrests : rest = (init ++ [x]) ++ tail := by
        rw [hsplit, List.append_assoc, List.singleton_append]
      refine ⟨d + d', errs ++ errs', ?_, ?_⟩
      · have htake : rest.take room = (init ++ [x]) ++ tail.take (room - (init ++ [x]).length) := by
          rw [hrests, List.take_append, List.take_of_length_le hfits]
        rw [htake, List.map_append]
        exact .page hdeleted hdeleted'
      · have hmore : room - (init ++ [x]).length < tail.length ↔ room < rest.length := by
          have hall : rest.length = (init ++ [x]).length + tail.length := by rw [hrests, List.length_append]
          omega
        rw [hout, ← Nat.add_assoc, ← List.append_assoc, decide_eq_decide.mpr hmore]

/-! ## The handler -/

theorem s3_answers (st : Store) (r : PrefixReq) : ∃ reply st', s3 st r reply st' := by
  obtain r | ⟨bucket, keys⟩ := r
  · let rest := (st r.bucket).remaining r.keyPrefix r.startAfter
    refine ⟨.ok ⟨rest.take r.maxKeys, decide ((rest.take r.maxKeys).length < rest.length)⟩, st, rfl, _, rfl, ?_⟩
    refine ⟨List.take_prefix _ _, by simp, fun hpos hne hnil => ?_, rfl⟩
    rcases List.take_eq_nil_iff.mp hnil with h0 | hempty
    · omega
    · exact hne hempty
  · exact ⟨.ok ⟨keys, []⟩, st.remove bucket keys, _, rfl, by simp, rfl⟩

theorem key_ne_empty {b : Bucket} {keyPrefix : String} (hne : keyPrefix ≠ "") :
    ∀ o ∈ b.under keyPrefix, o.key ≠ "" := by
  intro o ho hkey
  have hstarts := (List.mem_filter.mp ho).2
  rw [startsWith, hkey, List.isPrefixOf_iff_prefix] at hstarts
  exact hne (String.toList_eq_nil_iff.mp (List.prefix_nil.mp hstarts))

theorem handleDeletePrefix_served {bucket keyPrefix : String} {st st' : Store} {log : PrefixLog}
    {out : BatchDeleteOutcome} (hne : keyPrefix ≠ "") (hrun : Runs (handleDeletePrefix bucket keyPrefix) log out)
    (hserved : Served s3 st log st') :
    ∃ d errs, DeletedFrom bucket st ((((st bucket).under keyPrefix).take maxPrefixDeleteObjects).map S3Object.key) log d
        errs st' ∧
      out.answer = .ok ⟨d, errs, decide (maxPrefixDeleteObjects < ((st bucket).under keyPrefix).length)⟩ := by
  rw [handleDeletePrefix, if_neg hne] at hrun
  obtain ⟨d, errs, hdeleted, rfl⟩ :=
    deletePages_served maxPrefixDeleteObjects rfl hrun hserved rfl (key_ne_empty hne) rfl
  refine ⟨d, errs, hdeleted, ?_⟩
  rw [BatchDeleteResponse.finish, Nat.zero_add, List.nil_append]
  rfl

/-- **Deleting a prefix is exact.** Whatever S3 holds and whichever keys it refuses to delete: the loop ends; it
sends keys with the prefix only, each once, and at most `maxPrefixDeleteObjects`; it says `truncated` exactly when
there were more; every key sent is counted or listed; without `truncated` every object with the prefix is gone or
listed; and what was not sent, and every other bucket, is as it was. -/
theorem prefix_delete_exact {bucket keyPrefix : String} (hne : keyPrefix ≠ "") (st : Store) :
    (∃ log out st', Runs (handleDeletePrefix bucket keyPrefix) log out ∧ Served s3 st log st') ∧
      ∀ log out st', Runs (handleDeletePrefix bucket keyPrefix) log out → Served s3 st log st' →
        (∀ k ∈ sentKeys log, startsWith keyPrefix k = true) ∧ (sentKeys log).Nodup ∧
          (sentKeys log).length ≤ maxPrefixDeleteObjects ∧
          (∃ r, out.answer = .ok r ∧
            (r.truncated = true ↔ maxPrefixDeleteObjects < ((st bucket).under keyPrefix).length) ∧
            r.deleted + r.errors.length = (sentKeys log).length ∧
            (r.truncated = false → ∀ o ∈ (st bucket).under keyPrefix,
              o ∉ (st' bucket).objects ∨ o.key ∈ r.errors.map BatchDeleteError.key)) ∧
          (∀ o ∈ (st bucket).objects, o.key ∉ sentKeys log → o ∈ (st' bucket).objects) ∧
          ∀ other, other ≠ bucket → st' other = st other := by
  refine ⟨exists_served_run s3_answers _ st, ?_⟩
  intro log out st' hrun hserved
  obtain ⟨d, errs, hdeleted, hanswer⟩ := handleDeletePrefix_served hne hrun hserved
  have hsub : (((st bucket).under keyPrefix).take maxPrefixDeleteObjects).Sublist (st bucket).objects :=
    (List.take_sublist _ _).trans List.filter_sublist
  have hleft : st' bucket = (st bucket).remove (deletedKeys (rights log)) := by
    rw [hdeleted.left, Store.remove_same]
  have hgone : ∀ k ∈ deletedKeys (rights log), k ∈ sentKeys log := fun k hk =>
    hdeleted.sent ▸ hdeleted.accounted.subset (List.mem_append_left _ hk)
  refine ⟨?_, ?_, by simp [hdeleted.sent], ⟨_, hanswer, decide_eq_true_iff, ?_, ?_⟩, ?_, ?_⟩
  · rw [hdeleted.sent]
    intro k hk
    obtain ⟨o, ho, rfl⟩ := List.mem_map.mp hk
    exact (List.mem_filter.mp (List.mem_of_mem_take ho)).2
  · rw [hdeleted.sent]
    exact (st bucket).sorted.nodup.sublist (hsub.map _)
  · have hlen := hdeleted.accounted.length_eq
    rw [List.length_append, ← hdeleted.counted] at hlen
    rw [hdeleted.sent, ← hlen, List.length_map]
  · intro hall o ho
    have htake : ((st bucket).under keyPrefix).take maxPrefixDeleteObjects = (st bucket).under keyPrefix := by
      refine List.take_of_length_le ?_
      simpa using hall
    have hmem : o.key ∈ (((st bucket).under keyPrefix).take maxPrefixDeleteObjects).map S3Object.key := by
      rw [htake]
      exact List.mem_map_of_mem ho
    rw [← hdeleted.accounted.mem_iff, List.mem_append] at hmem
    refine hmem.imp_left fun hgone => ?_
    rw [hleft, Bucket.remove, List.mem_filter]
    simp [hgone]
  · intro o ho hnot
    rw [hleft, Bucket.remove, List.mem_filter, decide_eq_true_eq]
    exact ⟨ho, fun hmem => hnot (hgone _ hmem)⟩
  · intro other hother
    rw [hdeleted.left, Store.remove_other _ _ hother]

/-! ## A run -/

theorem sortedBy_three {k₁ k₂ k₃ : String} (s₁ s₂ s₃ : Int64) (h : k₁.toList < k₂.toList ∧ k₂.toList < k₃.toList) :
    SortedBy S3Object.key [⟨k₁, s₁⟩, ⟨k₂, s₂⟩, ⟨k₃, s₃⟩] := by
  have h₁ : k₁ < k₂ := String.lt_iff_toList_lt.mpr h.1
  have h₂ : k₂ < k₃ := String.lt_iff_toList_lt.mpr h.2
  refine .cons ?_ (.cons ?_ (.cons (by simp) .nil))
  · exact List.forall_mem_cons.mpr ⟨h₁, List.forall_mem_singleton.mpr (h₁.trans h₂)⟩
  · exact List.forall_mem_singleton.mpr h₂

def photos : Bucket := ⟨[⟨"a/1", 3⟩, ⟨"a/2", 5⟩, ⟨"b", 7⟩], sortedBy_three _ _ _ (by decide)⟩

/-- All other buckets are empty. -/
def photoStore : Store := fun bucket => if bucket = "photos" then photos else ⟨[], .nil⟩

theorem photoStore_photos : photoStore "photos" = photos := if_pos rfl

theorem under_photos : photos.under "a/" = [⟨"a/1", 3⟩, ⟨"a/2", 5⟩] := by decide

/-- S3 refuses to delete the second object. -/
def refusesOne : PrefixLog :=
  [⟨.inl ⟨"photos", "a/", 1000, ""⟩, .ok ⟨[⟨"a/1", 3⟩, ⟨"a/2", 5⟩], false⟩⟩,
   ⟨.inr (.deleteObjects "photos" ["a/1", "a/2"]), .ok ⟨["a/1"], [⟨"a/2", "AccessDenied", "denied"⟩]⟩⟩]

theorem refusesOne_runs : Runs (handleDeletePrefix "photos" "a/") refusesOne
    (BatchDeleteResponse.finish ⟨1, [⟨"a/2", "AccessDenied", "denied"⟩], false⟩) := by
  have hchunks : chunks deleteObjectsChunk ["a/1", "a/2"] = [["a/1", "a/2"]] := by decide
  have hdelete : Runs (deleteKeys "photos" ["a/1", "a/2"])
      [⟨.deleteObjects "photos" ["a/1", "a/2"], .ok ⟨["a/1"], [⟨"a/2", "AccessDenied", "denied"⟩]⟩⟩]
      (1, [⟨"a/2", "AccessDenied", "denied"⟩], none) := by
    rw [deleteKeys, hchunks, deleteChunks, runs_call]
    exact ⟨_, _, rfl, .ret _⟩
  rw [handleDeletePrefix, if_neg (by decide), deletePages]
  refine .call ?_
  simp only [pageKeys_eq]
  exact runs_bind.mpr ⟨_, _, [], rfl, runs_inr.mpr ⟨_, rfl, hdelete⟩, .ret _⟩

theorem refusesOne_served : Served s3 photoStore refusesOne (photoStore.remove "photos" ["a/1"]) := by
  refine .cons ⟨rfl, _, rfl, ?_⟩ (.cons ⟨_, rfl, .refl _, rfl⟩ (.nil _))
  change PageOf ((photoStore "photos").under "a/") 1000 _
  rw [photoStore_photos, under_photos]
  exact ⟨List.prefix_refl _, by decide, by simp, by decide⟩

theorem prefix_delete_two :
    (sentKeys refusesOne).length ≤ maxPrefixDeleteObjects ∧
      ∃ r, (Except.ok ⟨1, [⟨"a/2", "AccessDenied", "denied"⟩], false⟩ : Except Response BatchDeleteResponse) = .ok r ∧
        (r.truncated = true ↔ maxPrefixDeleteObjects < ((photoStore "photos").under "a/").length) ∧
        r.deleted + r.errors.length = (sentKeys refusesOne).length := by
  obtain ⟨-, -, hlen, ⟨r, hr, htrunc, hsum, -⟩, -⟩ :=
    (prefix_delete_exact (by decide) photoStore).2 _ _ _ refusesOne_runs refusesOne_served
  exact ⟨hlen, r, hr, htrunc, hsum⟩

end GarageConsole.Objects
