import Mathlib.Algebra.GroupWithZero.Nat
import GarageConsole.Foundations.Histories
import GarageConsole.Foundations.Systems
import GarageConsole.Lists.Cache
import GarageConsole.Maintenance.StorageHealth

/-! # One storage health for many dashboards

`loadStorageHealth` asks Garage three questions under a lock and keeps what it made of the answers for ten
seconds, unless the client left meanwhile. Requests arrive at any time, wait for the lock in any order, and
their clients may leave at any point. `Allowed` is what the console means by it: what may happen after what
has happened, the latest first.
-/

namespace GarageConsole.Maintenance

open Foundations.GoJson Foundations.Histories Foundations.Systems
open Garage (GarageError)
open GarageConsole.Lists (TtlCache)
open RepairGuard (ListWorkersMulti)

set_option autoImplicit false

def storageHealthTTL : ℕ := 10000000000

abbrev FanOut.Answer : FanOut → Type
  | .stats => Except GarageError NodeStatisticsMulti
  | .vars => Except GarageError GarageMultiResponse
  | .workers => Except GarageError ListWorkersMulti

abbrev Answers := (q : FanOut) → q.Answer

abbrev AnswersSoFar := (q : FanOut) → Option q.Answer

def Answers.health (a : Answers) : StorageHealthResponse := buildStorageHealth (a .stats) (a .vars) (a .workers)

def AnswersSoFar.all (a : AnswersSoFar) : Option Answers := do
  let stats ← a .stats
  let vars ← a .vars
  let workers ← a .workers
  return fun
    | .stats => stats
    | .vars => vars
    | .workers => workers

def AnswersSoFar.add (a : AnswersSoFar) (q : FanOut) (answer : q.Answer) : AnswersSoFar :=
  Function.update a q (some answer)

theorem AnswersSoFar.eq_of_all {a : AnswersSoFar} {all : Answers} (h : a.all = some all) (q : FanOut) :
    a q = some (all q) := by
  simp only [AnswersSoFar.all, bind, Option.bind_eq_some_iff] at h
  obtain ⟨stats, hstats, vars, hvars, workers, hworkers, h⟩ := h
  obtain rfl := Option.some.inj h
  cases q with
  | stats => exact hstats
  | vars => exact hvars
  | workers => exact hworkers

/-! ## The system -/

/-- How far `loadStorageHealth` is: `locked` has the lock and has not looked at the cache. -/
inductive Stage where
  | waiting
  | locked
  | asking (since : ℕ) (answers : AnswersSoFar)
  | done

structure HealthRequest where
  stage : Stage := .waiting
  gone : Bool := false

inductive HealthEvent where
  | left (i : ℕ)
  | asked (i time : ℕ)
  | answered (i : ℕ) (q : FanOut) (answer : q.Answer) (time : ℕ)
  | kept (i : ℕ) (v : StorageHealthResponse) (time : ℕ)
  | replied (i : ℕ) (v : StorageHealthResponse) (time : ℕ)

structure HealthState where
  now : ℕ := 0
  storageHealthCache : TtlCache StorageHealthResponse := { ttl := storageHealthTTL }
  holder : Option ℕ := none
  requests : List HealthRequest := []
  log : List HealthEvent := []

inductive HealthAction where
  | wait (time : ℕ)
  | arrive
  | leave (i : ℕ)
  | lock (i : ℕ)
  | look (i : ℕ)
  | answer (i : ℕ) (q : FanOut) (answer : q.Answer)
  | finish (i : ℕ)

/-- One step. `look` reads the cache and either replies or sends the three questions; `finish` builds the result
when all three are answered, keeps it if the client is still there, and replies. -/
def HealthState.step (baseURL : String) (s : HealthState) : HealthAction → Option HealthState
  | .wait time => some { s with now := s.now + time }
  | .arrive => some { s with requests := s.requests ++ [{}] }
  | .leave i =>
    match s.requests[i]? with
    | some r => some { s with requests := s.requests.set i { r with gone := true }, log := .left i :: s.log }
    | none => none
  | .lock i =>
    match s.holder, s.requests[i]? with
    | none, some ⟨.waiting, gone⟩ => some { s with holder := some i, requests := s.requests.set i ⟨.locked, gone⟩ }
    | _, _ => none
  | .look i =>
    match s.requests[i]? with
    | some ⟨.locked, gone⟩ =>
      match s.storageHealthCache.get s.now baseURL with
      | some v =>
        some { s with
          holder := none, requests := s.requests.set i ⟨.done, gone⟩, log := .replied i v s.now :: s.log }
      | none =>
        some { s with
          requests := s.requests.set i ⟨.asking s.now fun _ => none, gone⟩, log := .asked i s.now :: s.log }
    | _ => none
  | .answer i q answer =>
    match s.requests[i]? with
    | some ⟨.asking since answers, gone⟩ =>
      match answers q with
      | some _ => none
      | none =>
        some { s with
          requests := s.requests.set i ⟨.asking since (answers.add q answer), gone⟩
          log := .answered i q answer s.now :: s.log }
    | _ => none
  | .finish i =>
    match s.requests[i]? with
    | some ⟨.asking _ answers, gone⟩ =>
      match answers.all with
      | some all =>
        let done := { s with holder := none, requests := s.requests.set i ⟨.done, gone⟩ }
        if gone then some { done with log := .replied i all.health s.now :: s.log }
        else
          some { done with
            storageHealthCache := s.storageHealthCache.put s.now baseURL all.health
            log := .replied i all.health s.now :: .kept i all.health s.now :: s.log }
      | none => none
    | _ => none

def healthRequests (baseURL : String) : System HealthState HealthAction where
  init s := s = {}
  step s a t := s.step baseURL a = some t

/-! ## What is allowed -/

/-- The request put its questions at `since` and had these answers to all of them by `time`. -/
def Answered (before : List HealthEvent) (i since time : ℕ) (all : Answers) : Prop :=
  .asked i since ∈ before ∧ ∀ q, ∃ u, .answered i q (all q) u ∈ before ∧ since ≤ u ∧ u ≤ time

/-- A question is put again only more than ten seconds after the last result was kept, or when a client left
before its result was. A reply is the requester's own result, or one that was kept at most ten seconds ago. -/
def Allowed (before : List HealthEvent) : HealthEvent → Prop
  | .left _ => True
  | .asked _ t => ∀ i u, .asked i u ∈ before →
      .left i ∈ before ∨ ∃ v p, .kept i v p ∈ before ∧ u ≤ p ∧ p + storageHealthTTL < t
  | .answered i _ _ t => ∃ u, .asked i u ∈ before ∧ u ≤ t
  | .kept i v t => .left i ∉ before ∧ ∃ all since, v = all.health ∧ Answered before i since t all
  | .replied i v t => (∃ all since, v = all.health ∧ Answered before i since t all) ∨
      ∃ j p, .kept j v p ∈ before ∧ p ≤ t ∧ t ≤ p + storageHealthTTL

/-! ## The invariant -/

def Stage.Holds : Stage → Prop
  | .locked => True
  | .asking _ _ => True
  | _ => False

/-- What the log says about request `i`. -/
def StageInv (log : List HealthEvent) (now i : ℕ) : Stage → Prop
  | .waiting => ∀ u, .asked i u ∉ log
  | .locked => ∀ u, .asked i u ∉ log
  | .asking since answers => since ≤ now ∧ .asked i since ∈ log ∧ (∀ u, .asked i u ∈ log → u = since) ∧
      ∀ q a, answers q = some a → ∃ u, .answered i q a u ∈ log ∧ since ≤ u ∧ u ≤ now
  | .done => ∀ u, .asked i u ∈ log → .left i ∈ log ∨ ∃ v p, .kept i v p ∈ log ∧ u ≤ p

/-- What the cache has was kept, and what was kept is there still or something later is. -/
structure CacheInv (baseURL : String) (log : List HealthEvent) (now : ℕ) (cache : TtlCache StorageHealthResponse) :
    Prop where
  ttl : cache.ttl = storageHealthTTL
  entry : ∀ e, cache.entries.get baseURL = some e →
    ∃ j p, .kept j e.val p ∈ log ∧ p ≤ now ∧ e.expires = p + storageHealthTTL
  latest : ∀ j v p, .kept j v p ∈ log →
    p ≤ now ∧ ∃ e, cache.entries.get baseURL = some e ∧ p + storageHealthTTL ≤ e.expires

structure HealthInv (baseURL : String) (s : HealthState) : Prop where
  history : History Allowed s.log
  cache : CacheInv baseURL s.log s.now s.storageHealthCache
  holder : ∀ i, s.holder = some i ↔ ∃ r, s.requests[i]? = some r ∧ r.stage.Holds
  gone : ∀ i, .left i ∈ s.log ↔ ∃ r, s.requests[i]? = some r ∧ r.gone = true
  asked : ∀ i u, .asked i u ∈ s.log → ∃ r, s.requests[i]? = some r
  stage : ∀ i r, s.requests[i]? = some r → StageInv s.log s.now i r.stage

theorem StageInv.mono {log l : List HealthEvent} {now now' i : ℕ} {stage : Stage} (h : StageInv log now i stage)
    (hle : now ≤ now') (hnew : ∀ u, .asked i u ∉ l) : StageInv (l ++ log) now' i stage := by
  have hasked {u : ℕ} (hu : .asked i u ∈ l ++ log) : .asked i u ∈ log :=
    (List.mem_append.mp hu).resolve_left (hnew u)
  cases stage with
  | waiting => exact fun u hu => h u (hasked hu)
  | locked => exact fun u hu => h u (hasked hu)
  | asking since answers =>
    obtain ⟨hsince, hmem, honly, hanswers⟩ := h
    refine ⟨hsince.trans hle, List.mem_append_right _ hmem, fun u hu => honly u (hasked hu), fun q a ha => ?_⟩
    obtain ⟨u, hu, hfrom, hto⟩ := hanswers q a ha
    exact ⟨u, List.mem_append_right _ hu, hfrom, hto.trans hle⟩
  | done =>
    intro u hu
    rcases h u (hasked hu) with hleft | ⟨v, p, hkept, hp⟩
    · exact .inl (List.mem_append_right _ hleft)
    · exact .inr ⟨v, p, List.mem_append_right _ hkept, hp⟩

/-- Where a question is put: the cache has nothing, so all that was kept is out of date, and nobody else asks. -/
theorem HealthInv.asked_allowed {baseURL : String} {s : HealthState} (h : HealthInv baseURL s) {i : ℕ} {gone : Bool}
    (hget : s.requests[i]? = some ⟨.locked, gone⟩) (hmiss : s.storageHealthCache.get s.now baseURL = none) :
    Allowed s.log (.asked i s.now) := by
  have hexpired {j : ℕ} {v : StorageHealthResponse} {p : ℕ} (hkept : .kept j v p ∈ s.log) :
      p + storageHealthTTL < s.now := by
    obtain ⟨-, e, he, hle⟩ := h.cache.latest j v p hkept
    rw [TtlCache.get, he] at hmiss
    dsimp only at hmiss
    split_ifs at hmiss with hlt
    omega
  intro j u hasked
  obtain ⟨r, hr⟩ := h.asked j u hasked
  have hstage := h.stage j r hr
  cases hs : r.stage with
  | waiting =>
    rw [hs] at hstage
    exact absurd hasked (hstage u)
  | locked =>
    rw [hs] at hstage
    exact absurd hasked (hstage u)
  | asking since answers =>
    have hj := (h.holder j).mpr ⟨r, hr, by rw [hs]; trivial⟩
    rw [(h.holder i).mpr ⟨_, hget, trivial⟩] at hj
    obtain rfl := Option.some.inj hj
    rw [hget] at hr
    obtain rfl := Option.some.inj hr
    cases hs
  | done =>
    rw [hs] at hstage
    rcases hstage u hasked with hleft | ⟨v, p, hkept, hp⟩
    · exact .inl hleft
    · exact .inr ⟨v, p, hkept, hp, hexpired hkept⟩

theorem CacheInv.mono {baseURL : String} {log l : List HealthEvent} {now now' : ℕ}
    {cache : TtlCache StorageHealthResponse} (h : CacheInv baseURL log now cache) (hle : now ≤ now')
    (hnew : ∀ j v p, .kept j v p ∉ l) : CacheInv baseURL (l ++ log) now' cache := by
  refine ⟨h.ttl, fun e he => ?_, fun j v p hkept => ?_⟩
  · obtain ⟨j, p, hkept, hp, hexpires⟩ := h.entry e he
    exact ⟨j, p, List.mem_append_right _ hkept, hp.trans hle, hexpires⟩
  · obtain ⟨hp, he⟩ := h.latest j v p ((List.mem_append.mp hkept).resolve_left (hnew j v p))
    exact ⟨hp.trans hle, he⟩

theorem CacheInv.put {baseURL : String} {log : List HealthEvent} {now : ℕ} {cache : TtlCache StorageHealthResponse}
    (h : CacheInv baseURL log now cache) (i : ℕ) (v : StorageHealthResponse) :
    CacheInv baseURL (.kept i v now :: log) now (cache.put now baseURL v) := by
  have hget : (cache.put now baseURL v).entries.get baseURL = some ⟨v, now + storageHealthTTL⟩ := by
    rw [TtlCache.put, GoMap.get_set, if_pos rfl, h.ttl]
    rfl
  refine ⟨h.ttl, fun e he => ?_, fun j w p hkept => ?_⟩
  · rw [hget] at he
    obtain rfl := Option.some.inj he
    exact ⟨i, now, List.mem_cons_self, le_rfl, rfl⟩
  · have hp : p ≤ now := by
      rcases List.mem_cons.mp hkept with heq | hkept
      · cases heq
        exact le_rfl
      · exact (h.latest j w p hkept).1
    exact ⟨hp, _, hget, Nat.add_le_add_right hp _⟩

/-- A reply out of the cache was kept at most ten seconds ago. -/
theorem CacheInv.hit {baseURL : String} {log : List HealthEvent} {now : ℕ} {cache : TtlCache StorageHealthResponse}
    (h : CacheInv baseURL log now cache) {v : StorageHealthResponse} (hget : cache.get now baseURL = some v) :
    ∃ j p, .kept j v p ∈ log ∧ p ≤ now ∧ now ≤ p + storageHealthTTL := by
  rw [TtlCache.get] at hget
  split at hget
  · rename_i e he
    split_ifs at hget with hlt
    obtain rfl := Option.some.inj hget
    obtain ⟨j, p, hkept, hp, hexpires⟩ := h.entry e he
    exact ⟨j, p, hkept, hp, by omega⟩
  · cases hget

/-! ## The steps -/

def HealthEvent.request : HealthEvent → ℕ
  | .left i => i
  | .asked i _ => i
  | .answered i _ _ _ => i
  | .kept i _ _ => i
  | .replied i _ _ => i

/-- Request `i` moves on and logs `l`; the others stay where they are. -/
theorem HealthInv.move {baseURL : String} {s t : HealthState} (h : HealthInv baseURL s) {i : ℕ} {r r' : HealthRequest}
    (hget : s.requests[i]? = some r) {l : List HealthEvent} (hrequests : t.requests = s.requests.set i r')
    (hnow : t.now = s.now) (hlog : t.log = l ++ s.log) (hevents : ∀ e ∈ l, e.request = i)
    (hhistory : History Allowed t.log) (hcache : CacheInv baseURL t.log t.now t.storageHealthCache)
    (hothers : ∀ k, k ≠ i → (t.holder = some k ↔ s.holder = some k)) (hholder : t.holder = some i ↔ r'.stage.Holds)
    (hgone : r'.gone = true ↔ r.gone = true ∨ .left i ∈ l) (hstage : StageInv t.log t.now i r'.stage) :
    HealthInv baseURL t := by
  have hself : t.requests[i]? = some r' := by
    rw [hrequests, List.getElem?_set_self (List.getElem?_eq_some_iff.mp hget).1]
  have hother {k : ℕ} (hk : k ≠ i) : t.requests[k]? = s.requests[k]? := by
    rw [hrequests, List.getElem?_set_ne hk.symm]
  refine ⟨hhistory, hcache, fun k => ?_, fun k => ?_, fun k u hu => ?_, fun k q hq => ?_⟩
  · rcases eq_or_ne k i with rfl | hk
    · simp only [hself, Option.some.injEq, exists_eq_left', hholder]
    · rw [hothers k hk, h.holder, hother hk]
  · rw [hlog, List.mem_append, h.gone]
    rcases eq_or_ne k i with rfl | hk
    · simp only [hself, hget, Option.some.injEq, exists_eq_left', hgone]
      exact or_comm
    · rw [hother hk]
      exact or_iff_right fun hleft => hk (hevents _ hleft)
  · rcases eq_or_ne k i with rfl | hk
    · exact ⟨r', hself⟩
    · rw [hother hk]
      rw [hlog, List.mem_append] at hu
      exact h.asked k u (hu.resolve_left fun hu => hk (hevents _ hu))
  · rcases eq_or_ne k i with rfl | hk
    · rw [hself] at hq
      exact Option.some.inj hq ▸ hstage
    · rw [hlog, hnow]
      exact (h.stage k q (hother hk ▸ hq)).mono le_rfl fun u hu => hk (hevents _ hu)

section Steps

variable {baseURL : String} {s t : HealthState} {i : ℕ}

theorem HealthInv.holds (h : HealthInv baseURL s) {r : HealthRequest} (hget : s.requests[i]? = some r)
    (hholds : r.stage.Holds) : s.holder = some i := (h.holder i).mpr ⟨r, hget, hholds⟩

theorem HealthInv.holder_self (h : HealthInv baseURL s) {r : HealthRequest} (hget : s.requests[i]? = some r) :
    s.holder = some i ↔ r.stage.Holds := by
  rw [h.holder, hget]
  simp

theorem HealthInv.wait (h : HealthInv baseURL s) (time : ℕ) : HealthInv baseURL { s with now := s.now + time } :=
  ⟨h.history, h.cache.mono (l := []) (Nat.le_add_right _ _) fun _ _ _ => List.not_mem_nil, h.holder, h.gone,
    h.asked, fun i r hr => (h.stage i r hr).mono (l := []) (Nat.le_add_right _ _) fun _ => List.not_mem_nil⟩

theorem HealthInv.arrive (h : HealthInv baseURL s) :
    HealthInv baseURL { s with requests := s.requests ++ [⟨.waiting, false⟩] } := by
  have hold {k : ℕ} {r : HealthRequest} (hr : (s.requests ++ [⟨.waiting, false⟩])[k]? = some r) :
      s.requests[k]? = some r ∨ (k = s.requests.length ∧ r = ⟨.waiting, false⟩) := by
    rcases Nat.lt_trichotomy k s.requests.length with hk | rfl | hk
    · exact .inl (by rwa [List.getElem?_append_left hk] at hr)
    · rw [List.getElem?_concat_length] at hr
      exact .inr ⟨rfl, (Option.some.inj hr).symm⟩
    · rw [List.getElem?_eq_none (by simpa using Nat.succ_le_of_lt hk)] at hr
      cases hr
  have hkeep {k : ℕ} {r : HealthRequest} (hr : s.requests[k]? = some r) :
      (s.requests ++ [⟨.waiting, false⟩])[k]? = some r := by
    rw [List.getElem?_append_left (List.getElem?_eq_some_iff.mp hr).1, hr]
  have hfresh : ∀ r, s.requests[s.requests.length]? ≠ some r := fun r hr =>
    absurd (List.getElem?_eq_some_iff.mp hr).1 (lt_irrefl _)
  refine ⟨h.history, h.cache, fun k => ?_, fun k => ?_, fun k u hu => ?_, fun k r hr => ?_⟩
  · rw [h.holder]
    constructor
    · rintro ⟨r, hr, hholds⟩
      exact ⟨r, hkeep hr, hholds⟩
    · rintro ⟨r, hr, hholds⟩
      rcases hold hr with hr | ⟨-, rfl⟩
      · exact ⟨r, hr, hholds⟩
      · cases hholds
  · rw [h.gone]
    constructor
    · rintro ⟨r, hr, hgone⟩
      exact ⟨r, hkeep hr, hgone⟩
    · rintro ⟨r, hr, hgone⟩
      rcases hold hr with hr | ⟨-, rfl⟩
      · exact ⟨r, hr, hgone⟩
      · cases hgone
  · obtain ⟨r, hr⟩ := h.asked k u hu
    exact ⟨r, hkeep hr⟩
  · rcases hold hr with hr | ⟨rfl, rfl⟩
    · exact h.stage k r hr
    · intro u hu
      obtain ⟨r, hr⟩ := h.asked _ u hu
      exact hfresh r hr

theorem HealthInv.leave (h : HealthInv baseURL s) {r : HealthRequest} (hget : s.requests[i]? = some r) :
    HealthInv baseURL { s with requests := s.requests.set i { r with gone := true }, log := .left i :: s.log } :=
  h.move hget (l := [.left i]) rfl rfl rfl (by simp [HealthEvent.request]) (.cons h.history trivial)
    (h.cache.mono (l := [.left i]) le_rfl (by simp)) (fun _ _ => Iff.rfl) (by simpa using h.holder_self hget)
    (by simp) ((h.stage i r hget).mono (l := [.left i]) le_rfl (by simp))

theorem HealthInv.lock (h : HealthInv baseURL s) {gone : Bool} (hfree : s.holder = none)
    (hget : s.requests[i]? = some ⟨.waiting, gone⟩) :
    HealthInv baseURL { s with holder := some i, requests := s.requests.set i ⟨.locked, gone⟩ } :=
  h.move hget (l := []) rfl rfl rfl (by simp) h.history h.cache
    (fun k hk => by simp [hfree, hk.symm]) (iff_of_true rfl trivial) (by simp) (h.stage i ⟨.waiting, gone⟩ hget)

theorem HealthInv.hit (h : HealthInv baseURL s) {gone : Bool} (hget : s.requests[i]? = some ⟨.locked, gone⟩)
    {v : StorageHealthResponse} (hhit : s.storageHealthCache.get s.now baseURL = some v) :
    HealthInv baseURL { s with
      holder := none, requests := s.requests.set i ⟨.done, gone⟩, log := .replied i v s.now :: s.log } := by
  have hmine := h.holds hget trivial
  refine h.move hget (l := [.replied i v s.now]) rfl rfl rfl (by simp [HealthEvent.request])
    (.cons h.history (.inr (h.cache.hit hhit))) (h.cache.mono (l := [.replied i v s.now]) le_rfl (by simp))
    (fun k hk => by simp [hmine, hk.symm]) (by simp [Stage.Holds]) (by simp) ?_
  · intro u hu
    exact absurd ((List.mem_cons.mp hu).resolve_left (by simp)) (h.stage i _ hget u)

theorem HealthInv.miss (h : HealthInv baseURL s) {gone : Bool} (hget : s.requests[i]? = some ⟨.locked, gone⟩)
    (hmiss : s.storageHealthCache.get s.now baseURL = none) :
    HealthInv baseURL { s with
      requests := s.requests.set i ⟨.asking s.now fun _ => none, gone⟩, log := .asked i s.now :: s.log } := by
  refine h.move hget (l := [.asked i s.now]) rfl rfl rfl (by simp [HealthEvent.request])
    (.cons h.history (h.asked_allowed hget hmiss)) (h.cache.mono (l := [.asked i s.now]) le_rfl (by simp))
    (fun _ _ => Iff.rfl) (iff_of_true (h.holds hget trivial) trivial) (by simp)
    ⟨le_rfl, List.mem_cons_self, fun u hu => ?_, ?_⟩
  · rcases List.mem_cons.mp hu with heq | hu
    · cases heq
      rfl
    · exact absurd hu (h.stage i _ hget u)
  · intro q a ha
    cases ha

theorem HealthInv.answer (h : HealthInv baseURL s) {since : ℕ} {answers : AnswersSoFar} {gone : Bool}
    (hget : s.requests[i]? = some ⟨.asking since answers, gone⟩) (q : FanOut) (answer : q.Answer) :
    HealthInv baseURL { s with
      requests := s.requests.set i ⟨.asking since (answers.add q answer), gone⟩
      log := .answered i q answer s.now :: s.log } := by
  obtain ⟨hsince, hmem, honly, hanswers⟩ := h.stage i _ hget
  refine h.move hget (l := [.answered i q answer s.now]) rfl rfl rfl (by simp [HealthEvent.request])
    (.cons h.history ⟨since, hmem, hsince⟩) (h.cache.mono (l := [.answered i q answer s.now]) le_rfl (by simp))
    (fun _ _ => Iff.rfl) (iff_of_true (h.holds hget trivial) trivial) (by simp)
    ⟨hsince, List.mem_cons_of_mem _ hmem, fun u hu => honly u ((List.mem_cons.mp hu).resolve_left (by simp)), ?_⟩
  intro q' a ha
  rcases eq_or_ne q' q with rfl | hq
  · rw [AnswersSoFar.add, Function.update_self] at ha
    obtain rfl := Option.some.inj ha
    exact ⟨s.now, List.mem_cons_self, hsince, le_rfl⟩
  · rw [AnswersSoFar.add, Function.update_of_ne hq] at ha
    obtain ⟨u, hu, hfrom, hto⟩ := hanswers q' a ha
    exact ⟨u, List.mem_cons_of_mem _ hu, hfrom, hto⟩

/-- All three questions are answered. -/
theorem HealthInv.answered (h : HealthInv baseURL s) {since : ℕ} {answers : AnswersSoFar} {gone : Bool}
    (hget : s.requests[i]? = some ⟨.asking since answers, gone⟩) {all : Answers} (hall : answers.all = some all) :
    Answered s.log i since s.now all := by
  obtain ⟨-, hmem, -, hanswers⟩ := h.stage i _ hget
  exact ⟨hmem, fun q => hanswers q (all q) (AnswersSoFar.eq_of_all hall q)⟩

theorem Answered.cons {log : List HealthEvent} {since time : ℕ} {all : Answers} (h : Answered log i since time all)
    (e : HealthEvent) : Answered (e :: log) i since time all := by
  refine ⟨List.mem_cons_of_mem _ h.1, fun q => ?_⟩
  obtain ⟨u, hu, hfrom, hto⟩ := h.2 q
  exact ⟨u, List.mem_cons_of_mem _ hu, hfrom, hto⟩

/-- The client has left: the result is handed out and not kept. -/
theorem HealthInv.finishGone (h : HealthInv baseURL s) {since : ℕ} {answers : AnswersSoFar}
    (hget : s.requests[i]? = some ⟨.asking since answers, true⟩) {all : Answers} (hall : answers.all = some all) :
    HealthInv baseURL { s with
      holder := none, requests := s.requests.set i ⟨.done, true⟩, log := .replied i all.health s.now :: s.log } := by
  have hmine := h.holds hget trivial
  have hleft : .left i ∈ s.log := (h.gone i).mpr ⟨_, hget, rfl⟩
  refine h.move hget (l := [.replied i all.health s.now]) rfl rfl rfl (by simp [HealthEvent.request])
    (.cons h.history (.inl ⟨all, since, rfl, h.answered hget hall⟩))
    (h.cache.mono (l := [.replied i all.health s.now]) le_rfl (by simp))
    (fun k hk => by simp [hmine, hk.symm]) (by simp [Stage.Holds]) (by simp)
    (fun _ _ => .inl (List.mem_cons_of_mem _ hleft))

theorem HealthInv.finishKept (h : HealthInv baseURL s) {since : ℕ} {answers : AnswersSoFar}
    (hget : s.requests[i]? = some ⟨.asking since answers, false⟩) {all : Answers} (hall : answers.all = some all) :
    HealthInv baseURL { s with
      holder := none, requests := s.requests.set i ⟨.done, false⟩
      storageHealthCache := s.storageHealthCache.put s.now baseURL all.health
      log := .replied i all.health s.now :: .kept i all.health s.now :: s.log } := by
  have hmine := h.holds hget trivial
  have hanswered := h.answered hget hall
  obtain ⟨hsince, -, honly, -⟩ := h.stage i _ hget
  have hstays : .left i ∉ s.log := by
    rw [h.gone]
    rintro ⟨r, hr, hgone⟩
    rw [hget] at hr
    obtain rfl := Option.some.inj hr
    cases hgone
  have hkept : History Allowed (.kept i all.health s.now :: s.log) :=
    .cons h.history ⟨hstays, all, since, rfl, hanswered⟩
  refine h.move hget (l := [.replied i all.health s.now, .kept i all.health s.now]) rfl rfl rfl
    (by simp [HealthEvent.request]) (.cons hkept (.inl ⟨all, since, rfl, hanswered.cons _⟩))
    ((h.cache.put i all.health).mono (l := [.replied i all.health s.now]) le_rfl (by simp))
    (fun k hk => by simp [hmine, hk.symm]) (by simp [Stage.Holds]) (by simp) (fun u hu => ?_)
  have hold : .asked i u ∈ s.log := by simpa using hu
  exact .inr ⟨all.health, s.now, by simp, honly u hold ▸ hsince⟩

/-- **One step keeps the invariant.** -/
theorem HealthInv.step {a : HealthAction} (h : HealthInv baseURL s) (hstep : s.step baseURL a = some t) :
    HealthInv baseURL t := by
  cases a with
  | wait time =>
    cases hstep
    exact h.wait time
  | arrive =>
    cases hstep
    exact h.arrive
  | leave i =>
    rw [HealthState.step] at hstep
    split at hstep
    · rename_i r hget
      cases hstep
      exact h.leave hget
    · cases hstep
  | lock i =>
    rw [HealthState.step] at hstep
    split at hstep
    · rename_i gone hfree hget
      cases hstep
      exact h.lock hfree hget
    · cases hstep
  | look i =>
    rw [HealthState.step] at hstep
    split at hstep
    · rename_i gone hget
      split at hstep
      · rename_i v hhit
        cases hstep
        exact h.hit hget hhit
      · rename_i hmiss
        cases hstep
        exact h.miss hget hmiss
    · cases hstep
  | answer i q answer =>
    rw [HealthState.step] at hstep
    split at hstep
    · rename_i since answers gone hget
      split at hstep
      · cases hstep
      · cases hstep
        exact h.answer hget q answer
    · cases hstep
  | finish i =>
    rw [HealthState.step] at hstep
    split at hstep
    · rename_i since answers gone hget
      split at hstep
      · rename_i all hall
        cases gone with
        | true =>
          cases hstep
          exact h.finishGone hget hall
        | false =>
          cases hstep
          exact h.finishKept hget hall
      · cases hstep
    · cases hstep

end Steps

theorem healthInv {baseURL : String} {s : HealthState} (h : Reachable (healthRequests baseURL) (fun _ _ => True) s) :
    HealthInv baseURL s := by
  refine h.invariant ?_ fun _ _ _ hi _ hstep => hi.step hstep
  rintro s rfl
  refine ⟨.nil, ⟨rfl, fun e he => ?_, fun j v p hkept => ?_⟩, ?_, fun i => ?_, fun i u hu => ?_, ?_⟩
  · cases he
  · exact absurd hkept List.not_mem_nil
  · simp
  · simp
  · exact absurd hu List.not_mem_nil
  · intro i r hr
    cases hr

/-! ## Every request is answered in the end -/

def HealthAction.serves : HealthAction → Bool
  | .lock _ => true
  | .look _ => true
  | .answer _ _ _ => true
  | .finish _ => true
  | _ => false

def AnswersSoFar.open (a : AnswersSoFar) : ℕ :=
  ([.stats, .vars, .workers].filter fun q => (a q).isNone).length

/-- How many steps a request still takes at most. -/
def Stage.work : Stage → ℕ
  | .waiting => 6
  | .locked => 5
  | .asking _ answers => 1 + answers.open
  | .done => 0

def HealthState.work (s : HealthState) : ℕ := (s.requests.map fun r => r.stage.work).sum

theorem sum_map_set_lt {α : Type} (f : α → ℕ) {l : List α} {i : ℕ} {x y : α} (hget : l[i]? = some x)
    (hlt : f y < f x) : ((l.set i y).map f).sum < (l.map f).sum := by
  induction l generalizing i with
  | nil => cases hget
  | cons z l ih =>
    cases i with
    | zero =>
      obtain rfl := Option.some.inj hget
      simpa using hlt
    | succ i => simpa using ih hget

theorem AnswersSoFar.open_add {a : AnswersSoFar} {q : FanOut} (hq : a q = none) (answer : q.Answer) :
    (a.add q answer).open < a.open := by
  have hne {q' : FanOut} (h : q' ≠ q) : a.add q answer q' = a q' := Function.update_of_ne h _ _
  have hself : a.add q answer q = some answer := Function.update_self _ _ _
  cases q with
  | stats =>
    simp only [AnswersSoFar.open, List.filter_cons, hself, hq, hne (show FanOut.vars ≠ .stats by decide),
      hne (show FanOut.workers ≠ .stats by decide)]
    simp
  | vars =>
    simp only [AnswersSoFar.open, List.filter_cons, hself, hq, hne (show FanOut.stats ≠ .vars by decide),
      hne (show FanOut.workers ≠ .vars by decide)]
    split <;> simp
  | workers =>
    simp only [AnswersSoFar.open, List.filter_cons, hself, hq, hne (show FanOut.stats ≠ .workers by decide),
      hne (show FanOut.vars ≠ .workers by decide)]
    split <;> split <;> simp

section Progress

variable {baseURL : String} {s t : HealthState} {a : HealthAction}

/-- **A step that serves a request leaves less to do.** -/
theorem work_lt (hserves : a.serves = true) (hstep : s.step baseURL a = some t) : t.work < s.work := by
  cases a with
  | lock i =>
    rw [HealthState.step] at hstep
    split at hstep
    · rename_i gone _ hget
      cases hstep
      exact sum_map_set_lt _ hget (by simp [Stage.work])
    · cases hstep
  | look i =>
    rw [HealthState.step] at hstep
    split at hstep
    · rename_i gone hget
      split at hstep
      · cases hstep
        exact sum_map_set_lt _ hget (by simp [Stage.work])
      · cases hstep
        exact sum_map_set_lt _ hget (by simp [Stage.work, AnswersSoFar.open])
    · cases hstep
  | answer i q answer =>
    rw [HealthState.step] at hstep
    split at hstep
    · rename_i since answers gone hget
      split at hstep
      · cases hstep
      · rename_i hq
        cases hstep
        exact sum_map_set_lt _ hget (Nat.add_lt_add_left (AnswersSoFar.open_add hq answer) 1)
    · cases hstep
  | finish i =>
    rw [HealthState.step] at hstep
    split at hstep
    · rename_i since answers gone hget
      split at hstep
      · have hlt : Stage.done.work < (Stage.asking since answers).work := by
          simp only [Stage.work]
          omega
        split at hstep
        · cases hstep
          exact sum_map_set_lt _ hget hlt
        · cases hstep
          exact sum_map_set_lt _ hget hlt
      · cases hstep
    · cases hstep
  | wait _ => cases hserves
  | arrive => cases hserves
  | leave _ => cases hserves

/-- A request that asks has an unanswered question, or can finish. -/
theorem asking_serves {i since : ℕ} {answers : AnswersSoFar} {gone : Bool}
    (hget : s.requests[i]? = some ⟨.asking since answers, gone⟩) :
    ∃ a, a.serves = true ∧ (s.step baseURL a).isSome = true := by
  have hopen {q : FanOut} (answer : q.Answer) (hq : answers q = none) :
      (s.step baseURL (.answer i q answer)).isSome = true := by
    simp [HealthState.step, hget, hq]
  cases hstats : answers .stats with
  | none => exact ⟨_, rfl, hopen (q := .stats) (.error .transport) hstats⟩
  | some stats =>
    cases hvars : answers .vars with
    | none => exact ⟨_, rfl, hopen (q := .vars) (.error .transport) hvars⟩
    | some vars =>
      cases hworkers : answers .workers with
      | none => exact ⟨_, rfl, hopen (q := .workers) (.error .transport) hworkers⟩
      | some workers =>
        refine ⟨.finish i, rfl, ?_⟩
        cases gone <;> simp [HealthState.step, hget, AnswersSoFar.all, hstats, hvars, hworkers]

/-- **Nobody waits for ever**: as long as a request has no reply, some request can be served. -/
theorem HealthInv.serves (h : HealthInv baseURL s) {i : ℕ} {r : HealthRequest} (hget : s.requests[i]? = some r)
    (hopen : r.stage ≠ .done) : ∃ a, a.serves = true ∧ (s.step baseURL a).isSome = true := by
  obtain ⟨stage, gone⟩ := r
  cases hholder : s.holder with
  | none =>
    have hfree : ¬stage.Holds := fun hholds => by simp [h.holds hget hholds] at hholder
    cases stage with
    | waiting => exact ⟨.lock i, rfl, by simp [HealthState.step, hholder, hget]⟩
    | locked => exact absurd trivial hfree
    | asking _ _ => exact absurd trivial hfree
    | done => exact absurd rfl hopen
  | some j =>
    obtain ⟨⟨stage', gone'⟩, hj, hholds⟩ := (h.holder j).mp hholder
    cases stage' with
    | waiting => cases hholds
    | locked =>
      refine ⟨.look j, rfl, ?_⟩
      simp only [HealthState.step, hj]
      split <;> rfl
    | asking since answers => exact asking_serves hj
    | done => cases hholds

end Progress

def Stage.Asks : Stage → Prop
  | .asking _ _ => True
  | _ => False

theorem Stage.Asks.holds {stage : Stage} (h : stage.Asks) : stage.Holds := by
  cases stage with
  | asking _ _ => trivial
  | _ => cases h

/-- **Many dashboards, one fan-out.** Whatever requests arrive, leave and wait in whatever order: at most one of
them asks Garage at a time; after a fan-out, nobody asks again for ten seconds, unless its client had left; every
reply is built from the answers that one request got to its three questions, its own or one that was finished
at most ten seconds before; the result of a request whose client had left is not kept; and as long as a request
has no reply, some step serves one and leaves less to do. -/
theorem storage_health_shared {baseURL : String} {s : HealthState}
    (h : Reachable (healthRequests baseURL) (fun _ _ => True) s) :
    (∀ (i j : ℕ) (r r' : HealthRequest), s.requests[i]? = some r → s.requests[j]? = some r' →
      r.stage.Asks → r'.stage.Asks → i = j) ∧
    (∀ later before i t, s.log = later ++ .asked i t :: before → ∀ j u, .asked j u ∈ before →
      .left j ∈ before ∨ u + storageHealthTTL < t) ∧
    (∀ i v t, .replied i v t ∈ s.log → ∃ j since time all, v = all.health ∧ Answered s.log j since time all ∧
      (j = i ∨ .kept j v time ∈ s.log ∧ time ≤ t ∧ t ≤ time + storageHealthTTL)) ∧
    (∀ later before i v t, s.log = later ++ .kept i v t :: before → .left i ∉ before) ∧
    ∀ (i : ℕ) (r : HealthRequest), s.requests[i]? = some r → r.stage ≠ .done →
      ∃ a t, a.serves = true ∧ s.step baseURL a = some t ∧ t.work < s.work := by
  have hinv := healthInv h
  refine ⟨fun i j r r' hi hj hasks hasks' => ?_, fun later before i t hlog j u hu => ?_, fun i v t hv => ?_,
    fun later before i v t hlog => ?_, fun i r hget hopen => ?_⟩
  · have hholder := hinv.holds hi hasks.holds
    rw [hinv.holds hj hasks'.holds] at hholder
    exact (Option.some.inj hholder).symm
  · have hallowed := (hlog ▸ hinv.history).before.2
    rcases hallowed j u hu with hleft | ⟨v, p, -, hp, hlt⟩
    · exact .inl hleft
    · exact .inr (by omega)
  · obtain ⟨later, before, hlog, hbefore, hallowed⟩ := hinv.history.allowed_of_mem hv
    have hsub : ∀ e ∈ before, e ∈ s.log := fun e he => by simp [hlog, he]
    have hall {j since time : ℕ} {all : Answers} {l : List HealthEvent} (hl : ∀ e ∈ l, e ∈ s.log)
        (ha : Answered l j since time all) : Answered s.log j since time all := by
      refine ⟨hl _ ha.1, fun q => ?_⟩
      obtain ⟨u, hu, hfrom, hto⟩ := ha.2 q
      exact ⟨u, hl _ hu, hfrom, hto⟩
    rcases hallowed with ⟨all, since, rfl, hanswered⟩ | ⟨j, p, hkept, hp, hage⟩
    · exact ⟨i, since, t, all, rfl, hall hsub hanswered, .inl rfl⟩
    · obtain ⟨later', before', hlog', -, -, all, since, rfl, hanswered⟩ := hbefore.allowed_of_mem hkept
      refine ⟨j, since, p, all, rfl, hall (fun e he => hsub e ?_) hanswered, .inr ⟨hsub _ hkept, hp, hage⟩⟩
      simp [hlog', he]
  · exact (hlog ▸ hinv.history).before.2.1
  · obtain ⟨a, hserves, hstep⟩ := hinv.serves hget hopen
    obtain ⟨t, ht⟩ := Option.isSome_iff_exists.mp hstep
    exact ⟨a, t, hserves, ht, work_lt hserves ht⟩

def twoDashboards : List HealthAction :=
  [.arrive, .arrive, .lock 0, .look 0, .answer 0 .vars (.error .transport), .answer 0 .stats (.error .transport),
    .answer 0 .workers (.error .transport), .finish 0, .wait 8, .lock 1, .look 1]

theorem storage_health_shared_two : ∃ s v t, .replied 1 v t ∈ HealthState.log s ∧ ∃ j since time all,
    v = Answers.health all ∧ Answered s.log j since time all ∧
      (j = 1 ∨ .kept j v time ∈ s.log ∧ time ≤ t ∧ t ≤ time + storageHealthTTL) := by
  have hrun : ∃ s v t, run (HealthState.step "http://garage") (fun _ _ => true) {} twoDashboards = some s ∧
      .replied 1 v t ∈ s.log := ⟨_, _, _, rfl, List.mem_cons_self⟩
  obtain ⟨s, v, t, hrun, hmem⟩ := hrun
  have hreach := reachable_of_run (S := healthRequests "http://garage") (fun _ _ _ => id) (.init rfl) hrun
  exact ⟨s, v, t, hmem, (storage_health_shared (hreach.mono fun _ _ _ => trivial)).2.2.1 1 v t hmem⟩

end GarageConsole.Maintenance
