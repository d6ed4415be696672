import Mathlib.Algebra.Order.BigOperators.Group.List
import Mathlib.Algebra.Order.Ring.Int
import GarageConsole.Objects.PrefixDelete

/-! # The count before a prefix is deleted

`handlePrefixSummary` goes through the pages of the SDK's paginator, of whose requests the bucket and the prefix
are modelled: each call of NextPage gives the next objects and says whether HasMorePages holds. Pages may be of
any size, and a paginator could hand out empty ones forever, so the loop has a bound on its pages; it is not
reached while pages are not empty. Sizes are added as int64.
-/

namespace GarageConsole.Objects

open Foundations Foundations.Calls GarageConsole.Garage

set_option autoImplicit false

structure PrefixSummary where
  count : ℕ := 0
  bytes : Int64 := 0
  truncated : Bool := false
  deriving DecidableEq

structure NextPage where
  bucket : String
  keyPrefix : String
  deriving DecidableEq

structure SummaryPage where
  contents : List S3Object
  hasMorePages : Bool

abbrev SummaryProg (α : Type) := Prog NextPage (fun _ => Except S3Error SummaryPage) α

abbrev SummaryLog := List (Exchange NextPage fun _ => Except S3Error SummaryPage)

/-- The loop over the objects of a page. -/
def PrefixSummary.add : PrefixSummary → List S3Object → PrefixSummary
  | sum, [] => sum
  | sum, obj :: rest =>
    if maxPrefixDeleteObjects ≤ sum.count then { sum with truncated := true }
    else add { sum with count := sum.count + 1, bytes := sum.bytes + obj.size } rest

/-- The loop over the pages, at most so many; none when there were more. -/
def summaryPages (bucket keyPrefix : String) : ℕ → PrefixSummary → SummaryProg (Option (Except Response PrefixSummary))
  | 0, _ => return none
  | pages + 1, sum => .call ⟨bucket, keyPrefix⟩ fun
    | .error e => return some (.error (writeS3Error e "failed to list objects"))
    | .ok page =>
      let sum := sum.add page.contents
      if page.hasMorePages ∧ ¬sum.truncated then summaryPages bucket keyPrefix pages sum
      else return some (.ok sum)

/-- `GET /api/objects/{bucket}/prefix-summary`. -/
def handlePrefixSummary (pages : ℕ) (bucket keyPrefix : String) :
    SummaryProg (Option (Except Response PrefixSummary)) :=
  summaryPages bucket keyPrefix pages {}

/-! ## Counting -/

def addSizes (bytes : Int64) (objects : List S3Object) : Int64 := objects.foldl (fun acc o => acc + o.size) bytes

namespace PrefixSummary

theorem add_eq {objects : List S3Object} : ∀ {sum : PrefixSummary}, sum.count ≤ maxPrefixDeleteObjects →
    sum.truncated = false →
    sum.add objects =
      { count := min (sum.count + objects.length) maxPrefixDeleteObjects
        bytes := addSizes sum.bytes (objects.take (maxPrefixDeleteObjects - sum.count))
        truncated := decide (maxPrefixDeleteObjects < sum.count + objects.length) } := by
  induction objects with
  | nil =>
    intro sum hle htrunc
    obtain ⟨count, bytes, truncated⟩ := sum
    dsimp only at hle htrunc
    simp [add, addSizes, hle, htrunc]
  | cons obj rest ih =>
    intro sum hle htrunc
    rw [add]
    split_ifs with hfull
    · have hroom : maxPrefixDeleteObjects - sum.count = 0 := by omega
      have hcount : min (sum.count + (obj :: rest).length) maxPrefixDeleteObjects = sum.count := by
        rw [List.length_cons]
        omega
      have hmore : maxPrefixDeleteObjects < sum.count + (obj :: rest).length := by
        rw [List.length_cons]
        omega
      rw [hroom, hcount, decide_eq_true hmore]
      rfl
    · obtain ⟨room, hroom⟩ : ∃ room, maxPrefixDeleteObjects - sum.count = room + 1 :=
        ⟨maxPrefixDeleteObjects - sum.count - 1, by omega⟩
      have hnext : maxPrefixDeleteObjects - (sum.count + 1) = room := by omega
      have hlen : sum.count + (obj :: rest).length = sum.count + 1 + rest.length := by
        rw [List.length_cons]
        omega
      have hrec := @ih ⟨sum.count + 1, sum.bytes + obj.size, sum.truncated⟩ (Nat.lt_of_not_le hfull) htrunc
      rw [hrec, hlen, hroom]
      dsimp only
      rw [hnext]
      rfl

/-- A page that is not the last one adds all of its objects. -/
theorem add_append {l r : List S3Object} : ∀ {sum : PrefixSummary}, (sum.add l).truncated = false →
    (sum.add l).add r = sum.add (l ++ r) := by
  induction l with
  | nil => exact fun _ => rfl
  | cons obj l ih =>
    intro sum h
    rw [List.cons_append, add, add]
    rw [add] at h
    split_ifs at h ⊢
    exact ih h

theorem add_append_of_truncated {l r : List S3Object} : ∀ {sum : PrefixSummary}, sum.truncated = false →
    (sum.add l).truncated = true → sum.add (l ++ r) = sum.add l := by
  induction l with
  | nil =>
    intro sum hnot htrue
    rw [add, hnot] at htrue
    cases htrue
  | cons obj l ih =>
    intro sum hnot htrue
    rw [List.cons_append, add, add]
    rw [add] at htrue
    split_ifs at htrue ⊢
    · rfl
    · exact ih hnot htrue

end PrefixSummary

/-! ## The paginator -/

/-- The pages of a listing of what S3 holds, which does not change: the next objects with the prefix in the bucket, at
least one while there are any. The state is how many were listed, for which the paginator has a token. -/
def paginator (st : Store) : Service ℕ NextPage fun _ => Except S3Error SummaryPage
  | listed, r, reply, listed' => ∃ page : SummaryPage, reply = Except.ok page ∧
      page.contents ++ ((st r.bucket).under r.keyPrefix).drop listed' =
        ((st r.bucket).under r.keyPrefix).drop listed ∧
      (((st r.bucket).under r.keyPrefix).drop listed ≠ [] → page.contents ≠ []) ∧
      page.hasMorePages = decide (((st r.bucket).under r.keyPrefix).drop listed' ≠ [])

theorem summaryPages_served {st : Store} {bucket keyPrefix : String} : ∀ {pages : ℕ} {sum : PrefixSummary}
    {log : SummaryLog} {out : Option (Except Response PrefixSummary)} {listed listed' : ℕ},
    maxPrefixDeleteObjects - sum.count < pages → sum.count ≤ maxPrefixDeleteObjects → sum.truncated = false →
    Runs (summaryPages bucket keyPrefix pages sum) log out → Served (paginator st) listed log listed' →
      out = some (.ok (sum.add (((st bucket).under keyPrefix).drop listed))) := by
  intro pages
  induction pages with
  | zero =>
    intro sum log out listed listed' hpages
    omega
  | succ pages ih =>
    intro sum log out listed listed' hpages hle htrunc hrun hserves
    obtain ⟨reply, log, rfl, hgo⟩ := runs_call.mp hrun
    obtain ⟨listed₁, hstep, hserved⟩ := served_cons_exchange.mp hserves
    obtain ⟨page, rfl, hrest, hprogress, hmore⟩ := hstep
    dsimp only at hgo hrest hprogress hmore
    split_ifs at hgo with hgoOn
    · -- another page: this one was counted in full
      obtain ⟨hmorePages, hnot⟩ := hgoOn
      rw [Bool.not_eq_true] at hnot
      have hne : page.contents ≠ [] := by
        refine hprogress fun hnil => ?_
        rw [hnil] at hrest
        rw [(List.append_eq_nil_iff.mp hrest).2] at hmore
        rw [hmore] at hmorePages
        cases hmorePages
      have hpos := List.length_pos_iff.mpr hne
      have hadd := @PrefixSummary.add_eq page.contents sum hle htrunc
      rw [hadd, decide_eq_false_iff_not] at hnot
      have hcount : (sum.add page.contents).count = sum.count + page.contents.length := by
        rw [hadd]
        exact min_eq_left (by omega)
      rw [ih (by omega) (by omega) (by rw [hadd]; exact decide_eq_false hnot) hgo hserved]
      rw [PrefixSummary.add_append (by rw [hadd]; exact decide_eq_false hnot), hrest]
    · obtain ⟨rfl, rfl⟩ := runs_ret.mp hgo
      rw [← hrest]
      cases htrunc' : (sum.add page.contents).truncated with
      | true => rw [PrefixSummary.add_append_of_truncated htrunc htrunc']
      | false =>
        have hnil : ((st bucket).under keyPrefix).drop listed₁ = [] := by
          by_contra hsome
          exact hgoOn ⟨by simp [hmore, hsome], by simp [htrunc']⟩
        rw [hnil, List.append_nil]

/-! ## What the summary says of the deletion -/

def sizes (objects : List S3Object) : List ℤ := objects.map fun o => o.size.toInt

/-- Sizes that do not exceed int64 altogether are added up exactly. -/
theorem toInt_addSizes {objects : List S3Object} (hsizes : ∀ o ∈ objects, 0 ≤ o.size.toInt) :
    ∀ {bytes : Int64}, 0 ≤ bytes.toInt → bytes.toInt + (sizes objects).sum < 9223372036854775808 →
      (addSizes bytes objects).toInt = bytes.toInt + (sizes objects).sum := by
  induction objects with
  | nil =>
    intro bytes _ _
    simp [addSizes, sizes]
  | cons o objects ih =>
    intro bytes hbytes hsum
    obtain ⟨ho, hrest⟩ := List.forall_mem_cons.mp hsizes
    have hnonneg : 0 ≤ (sizes objects).sum := by
      refine List.sum_nonneg fun n hn => ?_
      obtain ⟨o', ho', rfl⟩ := List.mem_map.mp hn
      exact hrest o' ho'
    have hcons : (sizes (o :: objects)).sum = o.size.toInt + (sizes objects).sum := List.sum_cons
    rw [hcons] at hsum ⊢
    have hadd : (bytes + o.size).toInt = bytes.toInt + o.size.toInt := by
      rw [Int64.toInt_add]
      exact Int.bmod_eq_of_le (by omega) (by omega)
    have hih := @ih hrest (bytes + o.size) (by omega) (by omega)
    change (addSizes (bytes + o.size) objects).toInt = _
    rw [hih, hadd, Int.add_assoc]

/-- What the summary says of the objects with the prefix. -/
structure SummaryOf (objects : List S3Object) (sum : PrefixSummary) : Prop where
  count : sum.count = min objects.length maxPrefixDeleteObjects
  truncated : sum.truncated = true ↔ maxPrefixDeleteObjects < objects.length
  bytes : sum.bytes = addSizes 0 (objects.take sum.count)
  /-- The sum in int64 is the sum of the sizes, if that is an int64. -/
  fits : (∀ o ∈ objects.take sum.count, 0 ≤ o.size.toInt) →
    (sizes (objects.take sum.count)).sum < 9223372036854775808 →
      sum.bytes.toInt = (sizes (objects.take sum.count)).sum

theorem take_count (objects : List S3Object) :
    objects.take (min objects.length maxPrefixDeleteObjects) = objects.take maxPrefixDeleteObjects := by
  rw [Nat.min_comm, ← List.take_eq_take_min]

theorem summaryOf_add (objects : List S3Object) : SummaryOf objects (PrefixSummary.add {} objects) := by
  have hadd := @PrefixSummary.add_eq objects {} (Nat.zero_le _) rfl
  dsimp only at hadd
  rw [Nat.zero_add, Nat.sub_zero] at hadd
  have hbytes : (PrefixSummary.add {} objects).bytes =
      addSizes 0 (objects.take (PrefixSummary.add {} objects).count) := by
    rw [hadd]
    exact congrArg (addSizes 0) (take_count objects).symm
  refine ⟨by rw [hadd], by rw [hadd]; exact decide_eq_true_iff, hbytes, ?_⟩
  intro hsizes hsum
  rw [hbytes, toInt_addSizes hsizes (by decide) (by simpa using hsum)]
  simp

/-- **The summary predicts the deletion.** While S3 holds the same: the summary counts the objects with the prefix in
the bucket, up to `maxPrefixDeleteObjects`, with the sum of the sizes of those it counts, in a number of pages that
is bounded whatever their sizes are; and a deletion that follows sends exactly the objects that were counted and
says `truncated` exactly when the summary did. -/
theorem prefix_summary_predicts {pages : ℕ} {bucket keyPrefix : String} {st : Store} {listed : ℕ}
    {log : SummaryLog} {out : Option (Except Response PrefixSummary)} (hpages : maxPrefixDeleteObjects < pages)
    (hrun : Runs (handlePrefixSummary pages bucket keyPrefix) log out)
    (hserved : Served (paginator st) 0 log listed) :
    ∃ sum, out = some (.ok sum) ∧ SummaryOf ((st bucket).under keyPrefix) sum ∧
      ∀ {log' out' st'}, keyPrefix ≠ "" → Runs (handleDeletePrefix bucket keyPrefix) log' out' →
        Served s3 st log' st' →
          sentKeys log' = (((st bucket).under keyPrefix).take sum.count).map S3Object.key ∧
            (sentKeys log').length = sum.count ∧
            ∃ r, out'.answer = .ok r ∧ r.truncated = sum.truncated := by
  have hsummary := summaryOf_add ((st bucket).under keyPrefix)
  have hout := summaryPages_served (by simpa using hpages) (Nat.zero_le _) rfl hrun hserved
  rw [List.drop_zero] at hout
  refine ⟨_, hout, hsummary, ?_⟩
  intro log' out' st' hne hrun' hserved'
  obtain ⟨d, errs, hdeleted, hanswer⟩ := handleDeletePrefix_served hne hrun' hserved'
  rw [hdeleted.sent, hsummary.count, take_count]
  refine ⟨rfl, ?_, _, hanswer, ?_⟩
  · rw [List.length_map, List.length_take, Nat.min_comm]
  · rw [Bool.eq_iff_iff, hsummary.truncated]
    exact decide_eq_true_iff

/-! ## A run -/

def twoSummaryPages : SummaryLog :=
  [⟨⟨"photos", "a/"⟩, .ok ⟨[⟨"a/1", 3⟩], true⟩⟩, ⟨⟨"photos", "a/"⟩, .ok ⟨[⟨"a/2", 5⟩], false⟩⟩]

theorem twoSummaryPages_runs : Runs (handlePrefixSummary 10001 "photos" "a/") twoSummaryPages
    (some (.ok { count := 2, bytes := 8, truncated := false })) :=
  .call (.call (.ret _))

theorem twoSummaryPages_served : Served (paginator photoStore) 0 twoSummaryPages 2 := by
  have hpage : ∀ (listed listed' : ℕ) {page : SummaryPage},
      page.contents ++ ([⟨"a/1", 3⟩, ⟨"a/2", 5⟩] : List S3Object).drop listed' =
        ([⟨"a/1", 3⟩, ⟨"a/2", 5⟩] : List S3Object).drop listed → page.contents ≠ [] →
      page.hasMorePages = decide (([⟨"a/1", 3⟩, ⟨"a/2", 5⟩] : List S3Object).drop listed' ≠ []) →
      paginator photoStore listed ⟨"photos", "a/"⟩ (.ok page) listed' := by
    intro listed listed' page hrest hne hmore
    rw [← under_photos, ← photoStore_photos] at hrest hmore
    exact ⟨page, rfl, hrest, fun _ => hne, hmore⟩
  exact .cons (hpage 0 1 rfl (by simp) (by decide)) (.cons (hpage 1 2 rfl (by simp) (by decide)) (.nil _))

theorem prefix_summary_predicts_two : ∃ sum, SummaryOf ((photoStore "photos").under "a/") sum ∧
    sentKeys refusesOne = (((photoStore "photos").under "a/").take sum.count).map S3Object.key := by
  obtain ⟨sum, -, hsummary, hdelete⟩ :=
    prefix_summary_predicts (by decide) twoSummaryPages_runs twoSummaryPages_served
  exact ⟨sum, hsummary, (hdelete (by decide) refusesOne_runs refusesOne_served).1⟩

end GarageConsole.Objects
