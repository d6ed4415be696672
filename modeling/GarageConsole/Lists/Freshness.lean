import GarageConsole.Foundations.Systems
import GarageConsole.Lists.Fetch

/-! # Lists next to changes

The console serves list requests and forwards changes to Garage at the same time. Garage counts the changes
it made in `version`, and everything it answers is marked with the version it was answered at. A change that
was accepted clears the two caches, one after the other, before its response is sent. A list shows nothing
from before a change whose response was sent before the list started, as long as no worker stores an answer
from before a change that has already cleared the cache.
-/

namespace GarageConsole.Lists

open Foundations.Systems

set_option autoImplicit false

variable {α : Type}

/-! ## The system -/

inductive Kind where
  | bucket
  | key
  deriving DecidableEq

structure Answered (α : Type) where
  info : α
  version : ℕ
  deriving DecidableEq

/-- `proxyGarageMutation`: how far a request is, with the version its change made. -/
inductive Mutation where
  | sent
  | refused
  | accepted (version : ℕ)
  | clearedBuckets (version : ℕ)
  | cleared (version : ℕ)
  | responded (version : ℕ)
  deriving DecidableEq

/-- A list request; `after` are the changes whose responses were sent before it started. -/
structure ListRequest (α : Type) where
  kind : Kind
  call : Call (Answered α)
  after : List ℕ

structure State (α : Type) where
  now : ℕ := 0
  content : Kind → String → Option α
  version : ℕ := 0
  bucketInfoCache : TtlCache (Answered α) := {}
  keyInfoCache : TtlCache (Answered α) := {}
  mutations : List Mutation := []
  responded : List ℕ := []
  lists : List (ListRequest α) := []

inductive Action (α : Type) where
  | wait (time : ℕ)
  | change (content : Kind → String → Option α)
  | send
  | accept (m : ℕ) (content : Kind → String → Option α)
  | refuse (m : ℕ)
  | clearBuckets (m : ℕ)
  | clearKeys (m : ℕ)
  | respond (m : ℕ)
  | list (kind : Kind) (ids : List String)
  | call (l : ℕ) (a : CallAction)

def State.cache (s : State α) : Kind → TtlCache (Answered α)
  | .bucket => s.bucketInfoCache
  | .key => s.keyInfoCache

def State.setCache (s : State α) (k : Kind) (c : TtlCache (Answered α)) : State α :=
  match k with
  | .bucket => { s with bucketInfoCache := c }
  | .key => { s with keyInfoCache := c }

def State.fetch (s : State α) (k : Kind) (id : String) : Option (Answered α) := (s.content k id).map (⟨·, s.version⟩)

def State.cacheAfter (s : State α) (r : ListRequest α) (a : CallAction) : TtlCache (Answered α) :=
  match a, r.call.puts a with
  | .purge, _ => (s.cache r.kind).purgeExpired s.now
  | _, some (key, v) => (s.cache r.kind).put s.now key v
  | _, none => s.cache r.kind

/-- One step. A change that Garage refuses, or whose answer is lost, clears nothing; Garage may also be changed
by others. -/
def State.step (cachePrefix : String) (s : State α) : Action α → Option (State α)
  | .wait time => some { s with now := s.now + time }
  | .change content => some { s with content, version := s.version + 1 }
  | .send => some { s with mutations := s.mutations ++ [.sent] }
  | .accept m content =>
    match s.mutations[m]? with
    | some .sent =>
      some { s with content, version := s.version + 1, mutations := s.mutations.set m (.accepted (s.version + 1)) }
    | _ => none
  | .refuse m =>
    match s.mutations[m]? with
    | some .sent => some { s with mutations := s.mutations.set m .refused }
    | _ => none
  | .clearBuckets m =>
    match s.mutations[m]? with
    | some (.accepted version) =>
      some { s with
        bucketInfoCache := s.bucketInfoCache.clear, mutations := s.mutations.set m (.clearedBuckets version) }
    | _ => none
  | .clearKeys m =>
    match s.mutations[m]? with
    | some (.clearedBuckets version) =>
      some { s with keyInfoCache := s.keyInfoCache.clear, mutations := s.mutations.set m (.cleared version) }
    | _ => none
  | .respond m =>
    match s.mutations[m]? with
    | some (.cleared version) =>
      some { s with responded := version :: s.responded, mutations := s.mutations.set m (.responded version) }
    | _ => none
  | .list kind ids => some { s with lists := s.lists ++ [⟨kind, { cachePrefix, ids }, s.responded⟩] }
  | .call l a =>
    match s.lists[l]? with
    | some r =>
      match r.call.step ((s.cache r.kind).get s.now) (s.fetch r.kind) a with
      | some call => some { s.setCache r.kind (s.cacheAfter r a) with lists := s.lists.set l { r with call } }
      | none => none
    | none => none

def consoleLists (cachePrefix : String) : System (State α) (Action α) where
  init s := s.version = 0 ∧ s.bucketInfoCache = {} ∧ s.keyInfoCache = {} ∧ s.mutations = [] ∧ s.responded = [] ∧
    s.lists = []
  step s a t := s.step cachePrefix a = some t

/-- The version of the change, once it has cleared the cache of a list. -/
def Mutation.clearedVersion : Mutation → Kind → Option ℕ
  | .clearedBuckets version, .bucket => some version
  | .cleared version, _ => some version
  | .responded version, _ => some version
  | _, _ => none

/-- The step stores an answer from before a change that has already cleared the cache. -/
def stalePut (s : State α) : Action α → Bool
  | .call l a =>
    match s.lists[l]? with
    | some r =>
      match r.call.puts a with
      | some (_, v) => s.mutations.any fun m => (m.clearedVersion r.kind).any fun version => v.version < version
      | none => false
    | none => false
  | _ => false

/-- Every list that has returned shows only what Garage answered after the changes before it. -/
def Fresh (s : State α) : Prop :=
  ∀ r ∈ s.lists, ∀ out, r.call.phase = .returned out → ∀ version ∈ r.after, ∀ v, some v ∈ out → version ≤ v.version

/-! ## The invariant -/

def Mutation.madeVersion : Mutation → Option ℕ
  | .sent => none
  | .refused => none
  | .accepted version => some version
  | .clearedBuckets version => some version
  | .cleared version => some version
  | .responded version => some version

structure Inv (s : State α) : Prop where
  /-- A cache holds nothing from before a change that has cleared it. -/
  cached : ∀ k v, (s.cache k).Holds v → ∀ m ∈ s.mutations, ∀ version, m.clearedVersion k = some version →
    version ≤ v.version
  seen : ∀ r ∈ s.lists, ∀ v, r.call.phase.Holds v → ∀ version ∈ r.after, version ≤ v.version
  after : ∀ r ∈ s.lists, ∀ version ∈ r.after, version ∈ s.responded
  responded : ∀ version ∈ s.responded, .responded version ∈ s.mutations
  made : ∀ m ∈ s.mutations, ∀ version, m.madeVersion = some version → version ≤ s.version

theorem Inv.after_le_cached {s : State α} (h : Inv s) {r : ListRequest α} (hr : r ∈ s.lists) {v : Answered α}
    (hv : (s.cache r.kind).Holds v) {version : ℕ} (hversion : version ∈ r.after) : version ≤ v.version :=
  h.cached r.kind v hv _ (h.responded version (h.after r hr version hversion)) version rfl

theorem Inv.after_le {s : State α} (h : Inv s) {r : ListRequest α} (hr : r ∈ s.lists) {version : ℕ}
    (hversion : version ∈ r.after) : version ≤ s.version :=
  h.made _ (h.responded version (h.after r hr version hversion)) version rfl

/-- A change goes on from `old` to `new`: a cache that it has cleared now holds nothing. -/
theorem Inv.replace {s t : State α} (h : Inv s) {i : ℕ} {old new : Mutation} (hget : s.mutations[i]? = some old)
    (hmutations : t.mutations = s.mutations.set i new) (hlists : t.lists = s.lists)
    (hresponded : t.responded = s.responded) (hversion : s.version ≤ t.version)
    (hcache : ∀ k v, (t.cache k).Holds v → (s.cache k).Holds v) (hold : ∀ v, old ≠ .responded v)
    (hmade : ∀ v, new.madeVersion = some v → v ≤ t.version)
    (hcleared : ∀ k v, new.clearedVersion k = some v → old.clearedVersion k = some v ∨ ∀ w, ¬(t.cache k).Holds w) :
    Inv t := by
  have hmem := List.mem_of_getElem? hget
  refine ⟨?_, hlists ▸ h.seen, ?_, ?_, ?_⟩
  · intro k v hv m hm w hw
    rw [hmutations] at hm
    rcases List.mem_or_eq_of_mem_set hm with hm | rfl
    · exact h.cached k v (hcache k v hv) m hm w hw
    · rcases hcleared k w hw with hw | hnone
      · exact h.cached k v (hcache k v hv) _ hmem w hw
      · exact absurd hv (hnone v)
  · rw [hlists, hresponded]
    exact h.after
  · intro w hw
    rw [hresponded] at hw
    rw [hmutations]
    exact mem_set_of_ne (h.responded w hw) hget fun heq => hold w heq.symm
  · intro m hm w hw
    rw [hmutations] at hm
    rcases List.mem_or_eq_of_mem_set hm with hm | rfl
    · exact Nat.le_trans (h.made m hm w hw) hversion
    · exact hmade w hw

theorem Inv.send {s : State α} (h : Inv s) : Inv { s with mutations := s.mutations ++ [.sent] } := by
  have hnew : ∀ m ∈ s.mutations ++ [.sent], m ∈ s.mutations ∨ m = .sent := by
    intro m hm
    rcases List.mem_append.mp hm with hm | hm
    · exact .inl hm
    · exact .inr (List.mem_singleton.mp hm)
  refine ⟨?_, h.seen, h.after, fun w hw => List.mem_append_left _ (h.responded w hw), ?_⟩
  · intro k v hv m hm w hw
    rcases hnew m hm with hm | rfl
    · exact h.cached k v hv m hm w hw
    · cases hw
  · intro m hm w hw
    rcases hnew m hm with hm | rfl
    · exact h.made m hm w hw
    · cases hw

/-- A list starts: it has seen nothing. -/
theorem Inv.list {s : State α} (h : Inv s) {kind : Kind} {cachePrefix : String} {ids : List String} :
    Inv { s with lists := s.lists ++ [⟨kind, { cachePrefix, ids }, s.responded⟩] } := by
  refine ⟨h.cached, ?_, ?_, h.responded, h.made⟩
  · intro r hr v hv w hw
    rcases List.mem_append.mp hr with hr | hr
    · exact h.seen r hr v hv w hw
    · rw [List.mem_singleton.mp hr] at hv
      cases hv
  · intro r hr w hw
    rcases List.mem_append.mp hr with hr | hr
    · exact h.after r hr w hw
    · rw [List.mem_singleton.mp hr] at hw
      exact hw

theorem Inv.respond {s : State α} (h : Inv s) {version : ℕ} (hmem : .responded version ∈ s.mutations) :
    Inv { s with responded := version :: s.responded } := by
  refine ⟨h.cached, h.seen, fun r hr w hw => List.mem_cons_of_mem _ (h.after r hr w hw), ?_, h.made⟩
  intro w hw
  rcases List.mem_cons.mp hw with rfl | hw
  · exact hmem
  · exact h.responded w hw

theorem cache_setCache (s : State α) (k k' : Kind) (c : TtlCache (Answered α)) :
    (s.setCache k c).cache k' = if k' = k then c else s.cache k' := by
  cases k <;> cases k' <;> rfl

theorem setCache_frame (s : State α) (k : Kind) (c : TtlCache (Answered α)) :
    (s.setCache k c).mutations = s.mutations ∧ (s.setCache k c).responded = s.responded ∧
      (s.setCache k c).version = s.version := by
  cases k <;> exact ⟨rfl, rfl, rfl⟩

theorem holds_cacheAfter {s : State α} {r : ListRequest α} {a : CallAction} {v : Answered α}
    (h : (s.cacheAfter r a).Holds v) : (s.cache r.kind).Holds v ∨ ∃ key, r.call.puts a = some (key, v) := by
  unfold State.cacheAfter at h
  split at h
  · exact .inl (TtlCache.holds_purgeExpired h)
  · rename_i key w _ hputs
    rcases TtlCache.holds_put h with rfl | h
    · exact .inr ⟨key, hputs⟩
    · exact .inl h
  · exact .inl h

theorem le_of_not_stalePut {s : State α} {l : ℕ} {r : ListRequest α} {a : CallAction} {key : String} {v : Answered α}
    (hput : stalePut s (.call l a) = false) (hr : s.lists[l]? = some r) (hputs : r.call.puts a = some (key, v))
    {m : Mutation} (hm : m ∈ s.mutations) {version : ℕ} (hcleared : m.clearedVersion r.kind = some version) :
    version ≤ v.version := by
  simp only [stalePut, hr, hputs, List.any_eq_false] at hput
  have hnot := hput m hm
  simpa [hcleared] using hnot

theorem Inv.call {s : State α} (h : Inv s) {l : ℕ} {r : ListRequest α} (hr : s.lists[l]? = some r) {a : CallAction}
    {call : Call (Answered α)} (hmoves : r.call.Moves ((s.cache r.kind).get s.now) (s.fetch r.kind) a call)
    (hput : stalePut s (.call l a) = false) :
    Inv { s.setCache r.kind (s.cacheAfter r a) with lists := s.lists.set l { r with call } } := by
  have hmem := List.mem_of_getElem? hr
  obtain ⟨hmutations, hresponded, hversion⟩ := setCache_frame s r.kind (s.cacheAfter r a)
  refine ⟨?_, ?_, ?_, ?_, ?_⟩
  · intro k v hv m hm w hw
    replace hm : m ∈ s.mutations := hmutations ▸ hm
    replace hv : ((s.setCache r.kind (s.cacheAfter r a)).cache k).Holds v := hv
    rw [cache_setCache] at hv
    split_ifs at hv with hk
    · subst hk
      rcases holds_cacheAfter hv with hv | ⟨key, hputs⟩
      · exact h.cached r.kind v hv m hm w hw
      · exact le_of_not_stalePut hput hr hputs hm hw
    · exact h.cached k v hv m hm w hw
  · intro r' hr' v hv w hw
    rcases List.mem_or_eq_of_mem_set hr' with hr' | rfl
    · exact h.seen r' hr' v hv w hw
    · rcases hmoves.holds hv with hv | ⟨key, hget⟩ | ⟨id, hfetch⟩
      · exact h.seen r hmem v hv w hw
      · exact h.after_le_cached hmem (TtlCache.holds_of_get hget) hw
      · obtain ⟨info, -, rfl⟩ := Option.map_eq_some_iff.mp hfetch
        exact h.after_le hmem hw
  · intro r' hr' w hw
    show w ∈ (s.setCache r.kind (s.cacheAfter r a)).responded
    rw [hresponded]
    rcases List.mem_or_eq_of_mem_set hr' with hr' | rfl
    · exact h.after r' hr' w hw
    · exact h.after r hmem w hw
  · intro w hw
    exact hmutations ▸ h.responded w (hresponded ▸ hw)
  · intro m hm w hw
    exact hversion ▸ h.made m (hmutations ▸ hm) w hw

/-- **One step keeps the invariant**, unless it stores an answer from before a change. -/
theorem Inv.step {cachePrefix : String} {s t : State α} {a : Action α} (h : Inv s) (hput : stalePut s a = false)
    (hstep : s.step cachePrefix a = some t) : Inv t := by
  cases a with
  | wait time =>
    cases hstep
    exact ⟨h.cached, h.seen, h.after, h.responded, h.made⟩
  | change content =>
    cases hstep
    exact ⟨h.cached, h.seen, h.after, h.responded, fun m hm w hw => Nat.le_succ_of_le (h.made m hm w hw)⟩
  | send =>
    cases hstep
    exact h.send
  | accept m content =>
    rw [State.step] at hstep
    split at hstep
    · rename_i hget
      cases hstep
      refine h.replace hget rfl rfl rfl (Nat.le_succ _) (fun _ _ => id) nofun ?_ nofun
      intro v hv
      cases hv
      exact Nat.le_refl _
    · cases hstep
  | refuse m =>
    rw [State.step] at hstep
    split at hstep
    · rename_i hget
      cases hstep
      exact h.replace hget rfl rfl rfl (Nat.le_refl _) (fun _ _ => id) nofun nofun nofun
    · cases hstep
  | clearBuckets m =>
    rw [State.step] at hstep
    split at hstep
    · rename_i version hget
      cases hstep
      refine h.replace hget rfl rfl rfl (Nat.le_refl _) ?_ nofun
        (h.made (.accepted version) (List.mem_of_getElem? hget)) ?_
      · intro k v hv
        cases k with
        | bucket => exact absurd hv (TtlCache.not_holds_clear _ v)
        | key => exact hv
      · intro k v hv
        cases k with
        | bucket => exact .inr (TtlCache.not_holds_clear _)
        | key => cases hv
    · cases hstep
  | clearKeys m =>
    rw [State.step] at hstep
    split at hstep
    · rename_i version hget
      cases hstep
      refine h.replace hget rfl rfl rfl (Nat.le_refl _) ?_ nofun
        (h.made (.clearedBuckets version) (List.mem_of_getElem? hget)) ?_
      · intro k v hv
        cases k with
        | bucket => exact hv
        | key => exact absurd hv (TtlCache.not_holds_clear _ v)
      · intro k v hv
        cases k with
        | bucket => exact .inl hv
        | key => exact .inr (TtlCache.not_holds_clear _)
    · cases hstep
  | respond m =>
    rw [State.step] at hstep
    split at hstep
    · rename_i version hget
      cases hstep
      have hlt : m < s.mutations.length := (List.getElem?_eq_some_iff.mp hget).1
      have hreplaced : Inv { s with mutations := s.mutations.set m (.responded version) } :=
        h.replace hget rfl rfl rfl (Nat.le_refl _) (fun _ _ => id) nofun
          (h.made (.cleared version) (List.mem_of_getElem? hget)) (fun _ _ => .inl)
      exact hreplaced.respond (List.mem_set hlt _)
    · cases hstep
  | list kind ids =>
    cases hstep
    exact h.list
  | call l a =>
    rw [State.step] at hstep
    split at hstep
    · rename_i r hr
      split at hstep
      · rename_i call hcall
        cases hstep
        exact h.call hr (Call.moves_of_step hcall) hput
      · cases hstep
    · cases hstep

theorem Inv.fresh {s : State α} (h : Inv s) : Fresh s := by
  intro r hr out hphase w hw v hv
  refine h.seen r hr v ?_ w hw
  rw [hphase]
  exact hv

/-- **Lists are fresh** in every run in which no worker stores an answer from before a change that has already
cleared the cache. -/
theorem lists_fresh {cachePrefix : String} {s : State α}
    (h : Reachable (consoleLists cachePrefix) (fun s a => stalePut s a = false) s) : Fresh s := by
  refine (h.invariant (I := Inv) ?_ fun s a t hinv hput hstep => hinv.step hput hstep).fresh
  rintro s ⟨-, hbuckets, hkeys, hmutations, hresponded, hlists⟩
  refine ⟨?_, ?_, ?_, ?_, ?_⟩
  · intro k v hv m hm
    rw [hmutations] at hm
    exact absurd hm List.not_mem_nil
  · intro r hr
    rw [hlists] at hr
    exact absurd hr List.not_mem_nil
  · intro r hr
    rw [hlists] at hr
    exact absurd hr List.not_mem_nil
  · intro w hw
    rw [hresponded] at hw
    exact absurd hw List.not_mem_nil
  · intro m hm
    rw [hmutations] at hm
    exact absurd hm List.not_mem_nil

/-! ## A late store -/

def oneBucket (info : String) (kind : Kind) (id : String) : Option String :=
  if kind = .bucket ∧ id = "b1" then some info else none

def oneBucketState : State String where
  content := oneBucket "empty"

def listAsks (l : ℕ) : List (Action String) :=
  [.list .bucket ["b1"], .call l .purge, .call l .look, .call l .spawn, .call l (.take 0), .call l (.answer 0 false)]

def listFinds (l : ℕ) : List (Action String) :=
  [.list .bucket ["b1"], .call l .purge, .call l .look, .call l .spawn, .call l .close, .call l .finish]

def objectAdded (m : ℕ) : List (Action String) :=
  [.send, .accept m (oneBucket "one object"), .clearBuckets m, .clearKeys m, .respond m]

/-- The first list asked before the change and stores the answer after the change has cleared the caches. -/
def lateStore : List (Action String) :=
  listAsks 0 ++ objectAdded 0 ++ [.call 0 (.store 0)] ++ listFinds 1

def earlyStore : List (Action String) :=
  listAsks 0 ++ [.call 0 (.store 0)] ++ objectAdded 0 ++ listAsks 1 ++
    [.call 1 (.store 0), .call 1 .close, .call 1 .finish]

def State.shown (s : State α) (l : ℕ) : Option (List (Option (Answered α)) × List ℕ) :=
  match s.lists[l]? with
  | some r =>
    match r.call.phase with
    | .returned out => some (out, r.after)
    | _ => none
  | none => none

theorem not_fresh_of_shown {s : State α} {l : ℕ} {v : Answered α} {version : ℕ}
    (h : s.shown l = some ([some v], [version])) (hlt : v.version < version) : ¬Fresh s := by
  rw [State.shown] at h
  split at h
  · rename_i r hr
    split at h
    · rename_i out hphase
      obtain ⟨hout, hafter⟩ := Prod.mk.inj (Option.some.inj h)
      intro hfresh
      have hle : version ≤ v.version := by
        apply hfresh r (List.mem_of_getElem? hr) out hphase
        · rw [hafter]
          exact List.mem_singleton_self version
        · rw [hout]
          exact List.mem_singleton_self (some v)
      omega
    · cases h
  · cases h

theorem oneBucketState_init : (consoleLists "garage").init oneBucketState :=
  ⟨rfl, rfl, rfl, rfl, rfl, rfl⟩

/-- **A list started after a change shows what Garage said before it**: an older list stored its answer late. -/
theorem late_store_shown :
    ¬∀ s : State String, Reachable (consoleLists "garage") (fun _ _ => True) s → Fresh s := by
  intro hall
  have hshown : (run (State.step "garage") (fun _ _ => true) oneBucketState lateStore).bind (State.shown · 1) =
      some ([some ⟨"empty", 0⟩], [1]) := by decide +kernel
  obtain ⟨s, hrun, hs⟩ := Option.bind_eq_some_iff.mp hshown
  have hreach := reachable_of_run (S := consoleLists "garage") (fun _ _ _ => id) (.init oneBucketState_init) hrun
  exact not_fresh_of_shown hs Nat.zero_lt_one (hall s (hreach.mono fun _ _ _ => trivial))

theorem lists_fresh_early_store :
    ∃ s : State String, s.shown 1 = some ([some ⟨"one object", 1⟩], [1]) ∧ Fresh s := by
  have hshown : (run (State.step "garage") (fun s a => !stalePut s a) oneBucketState earlyStore).bind
      (State.shown · 1) = some ([some ⟨"one object", 1⟩], [1]) := by decide +kernel
  obtain ⟨s, hrun, hs⟩ := Option.bind_eq_some_iff.mp hshown
  have hreach := reachable_of_run (S := consoleLists "garage") (fun _ _ _ => id) (.init oneBucketState_init) hrun
  exact ⟨s, hs, lists_fresh (hreach.mono fun _ _ hok => by simpa using hok)⟩

end GarageConsole.Lists
