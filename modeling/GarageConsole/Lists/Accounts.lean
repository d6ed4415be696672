import Mathlib.Data.List.Perm.Basic
import GarageConsole.Lists.Fetch

/-! # What has become of each index

`Call.events` says what a step of `fetchInfoConcurrently` does to an index: it is served from the cache, a fetch for
it starts, or ends. `Accounts` is what holds after these events: each index that the cache does not serve is waiting,
with a worker, or done, in one place only. What the cache holds and what a fetch answers may be new at every step.
-/

namespace GarageConsole.Lists

set_option autoImplicit false

variable {α : Type}

inductive Event (α : Type) where
  | hit (i : ℕ) (key : String) (v : α)
  | started (i : ℕ) (id : String)
  | ended (i : ℕ) (id : String) (answer : Option α)
  deriving DecidableEq

/-- What a step does to an index. -/
def Call.events (cached fetch : String → Option α) (c : Call α) (a : CallAction) : List (Event α) :=
  match a, c.phase with
  | .look, .looking next _ _ => (c.ids[next]?.bind fun id =>
      (cached (c.cachePrefix ++ id)).map (.hit next (c.cachePrefix ++ id))).toList
  | .take _, .working _ (i :: _) _ _ => (c.ids[i]?.map (.started i)).toList
  | .answer w fails, .working _ _ _ workers =>
    match workers[w]? with
    | some (.fetching i) => (c.ids[i]?.map fun id => .ended i id (if fails then none else fetch id)).toList
    | _ => []
  | _, _ => []

/-! ## Accounts -/

def Event.served : Event α → Option ℕ
  | .hit i _ _ => some i
  | _ => none

def Event.start : Event α → Option ℕ
  | .started i _ => some i
  | _ => none

def Event.stop : Event α → Option ℕ
  | .ended i _ _ => some i
  | _ => none

/-- The indices served from the cache. -/
def servedOf (evs : List (Event α)) : List ℕ := evs.filterMap Event.served

/-- The indices a fetch was started for, once for each fetch. -/
def startedOf (evs : List (Event α)) : List ℕ := evs.filterMap Event.start

def endedOf (evs : List (Event α)) : List ℕ := evs.filterMap Event.stop

def Worker.busy : Worker α → Option ℕ
  | .fetching i => some i
  | _ => none

def fetchingOf (workers : List (Worker α)) : List ℕ := workers.filterMap Worker.busy

section Accounts

variable (ids : List String) (cachePrefix : String) (evs : List (Event α))

def FromCache (i : ℕ) (v : α) : Prop := ∃ id, ids[i]? = some id ∧ .hit i (cachePrefix ++ id) v ∈ evs

def FromFetch (i : ℕ) (v : α) : Prop := ∃ id, ids[i]? = some id ∧ .ended i id (some v) ∈ evs

/-- The result so far. -/
structure Values (out : List (Option α)) : Prop where
  length_eq : out.length = ids.length
  origin : ∀ i v, out[i]? = some (some v) → FromCache ids cachePrefix evs i v ∨ FromFetch ids evs i v
  served : ∀ i ∈ servedOf evs, ∃ v, out[i]? = some (some v)

structure Looked (next : ℕ) (out : List (Option α)) (todo : List ℕ) : Prop extends
    Values ids cachePrefix evs out where
  next_le : next ≤ ids.length
  started_nil : startedOf evs = []
  ended_nil : endedOf evs = []
  nodup : todo.Nodup
  mem_todo : ∀ i, i ∈ todo ↔ i < next ∧ i ∉ servedOf evs
  served_lt : ∀ i ∈ servedOf evs, i < next

/-- `queue` waits to be fed, and `fetching` is with the workers. -/
structure Fed (queue fetching : List ℕ) : Prop where
  once : (startedOf evs ++ queue).Nodup
  missed : ∀ i ∈ startedOf evs ++ queue, i < ids.length ∧ i ∉ servedOf evs
  running : (startedOf evs).Perm (endedOf evs ++ fetching)

structure Fetching (out : List (Option α)) (queue : List ℕ) (closed cancelled : Bool) (workers : List (Worker α)) :
    Prop extends Values ids cachePrefix evs out, Fed ids evs queue (fetchingOf workers) where
  complete : closed = false ∨ cancelled = false → ∀ i < ids.length, i ∈ servedOf evs ∨ i ∈ startedOf evs ++ queue
  answers : ∀ i id v, .ended i id (some v) ∈ evs →
    (∃ u, .fetched i u ∈ workers) ∨ ∃ u, out[i]? = some (some u)
  pending : ∀ i v, .fetched i v ∈ workers → FromFetch ids evs i v
  workers_le : workers.length ≤ enrichWorkers
  manned : queue ≠ [] → workers ≠ []
  closed_queue : closed = true → queue = []

structure Finished (out : List (Option α)) (cancelled : Bool) : Prop extends
    Values ids cachePrefix evs out, Fed ids evs [] [] where
  complete : cancelled = false → ∀ i < ids.length, i ∈ servedOf evs ∨ i ∈ startedOf evs
  answers : ∀ i id v, .ended i id (some v) ∈ evs → ∃ u, out[i]? = some (some u)

/-- What holds after these events. -/
def Accounts (c : Call α) : Prop :=
  c.ids = ids ∧ c.cachePrefix = cachePrefix ∧
    match c.phase with
    | .starting => evs = []
    | .looking next out todo => Looked ids cachePrefix evs next out todo
    | .working out queue closed workers => Fetching ids cachePrefix evs out queue closed c.cancelled workers
    | .returned out => Finished ids cachePrefix evs out c.cancelled

end Accounts

/-! ## One place changed -/

theorem perm_set {β : Type} {l : List β} {w : ℕ} {x : β} (h : l[w]? = some x) (y : β) :
    (x :: l.set w y).Perm (y :: l) := by
  obtain ⟨hw, rfl⟩ := List.getElem?_eq_some_iff.mp h
  have hset := (List.set_perm_cons_eraseIdx hw y).cons l[w]
  have hrest := (List.getElem_cons_eraseIdx_perm hw).cons y
  exact hset.trans ((List.Perm.swap _ _ _).trans hrest)

theorem some_set {out : List (Option α)} {i j : ℕ} {v u : α} (h : out[j]? = some (some u)) :
    ∃ u', (out.set i (some v))[j]? = some (some u') := by
  rw [List.getElem?_set]
  split_ifs with hij hlt
  · exact ⟨v, rfl⟩
  · have hj := (List.getElem?_eq_some_iff.mp h).1
    omega
  · exact ⟨u, h⟩

theorem fetchingOf_set {workers : List (Worker α)} {w : ℕ} {x : Worker α} (h : workers[w]? = some x) (y : Worker α) :
    ((x.busy).toList ++ fetchingOf (workers.set w y)).Perm (y.busy.toList ++ fetchingOf workers) := by
  have hperm := (perm_set h y).filterMap Worker.busy
  cases hx : x.busy <;> cases hy : y.busy <;> simpa [fetchingOf, List.filterMap_cons, hx, hy] using hperm

/-! ## More events -/

section More

variable {ids : List String} {cachePrefix : String} {evs : List (Event α)}

theorem servedOf_append (evs more : List (Event α)) : servedOf (evs ++ more) = servedOf evs ++ servedOf more :=
  List.filterMap_append

theorem startedOf_append (evs more : List (Event α)) : startedOf (evs ++ more) = startedOf evs ++ startedOf more :=
  List.filterMap_append

theorem endedOf_append (evs more : List (Event α)) : endedOf (evs ++ more) = endedOf evs ++ endedOf more :=
  List.filterMap_append

theorem FromCache.more {i : ℕ} {v : α} (h : FromCache ids cachePrefix evs i v) (more : List (Event α)) :
    FromCache ids cachePrefix (evs ++ more) i v := by
  obtain ⟨id, hid, hmem⟩ := h
  exact ⟨id, hid, List.mem_append_left _ hmem⟩

theorem FromFetch.more {i : ℕ} {v : α} (h : FromFetch ids evs i v) (more : List (Event α)) :
    FromFetch ids (evs ++ more) i v := by
  obtain ⟨id, hid, hmem⟩ := h
  exact ⟨id, hid, List.mem_append_left _ hmem⟩

theorem Values.more {out : List (Option α)} (h : Values ids cachePrefix evs out) {more : List (Event α)}
    (hmore : servedOf more = []) : Values ids cachePrefix (evs ++ more) out where
  length_eq := h.length_eq
  origin i v hi := (h.origin i v hi).imp (·.more more) (·.more more)
  served i hi := by
    rw [servedOf_append, hmore, List.append_nil] at hi
    exact h.served i hi

/-- One more value, from the cache or from a fetch. -/
theorem Values.set {out : List (Option α)} (h : Values ids cachePrefix evs out) {more : List (Event α)} {i : ℕ} {v : α}
    (hi : i < ids.length)
    (hv : FromCache ids cachePrefix (evs ++ more) i v ∨ FromFetch ids (evs ++ more) i v)
    (hmore : ∀ j ∈ servedOf more, j = i) : Values ids cachePrefix (evs ++ more) (out.set i (some v)) where
  length_eq := by rw [List.length_set, h.length_eq]
  origin j u hj := by
    rw [List.getElem?_set] at hj
    split_ifs at hj with hij hlt
    · cases hj
      exact hij ▸ hv
    · exact (h.origin j u hj).imp (·.more more) (·.more more)
  served j hj := by
    rw [servedOf_append, List.mem_append] at hj
    rcases hj with hj | hj
    · obtain ⟨u, hu⟩ := h.served j hj
      exact some_set hu
    · obtain rfl := hmore j hj
      exact ⟨v, by rw [List.getElem?_set_self (by rw [h.length_eq]; exact hi)]⟩

theorem endedOf_of_mem {i : ℕ} {id : String} {answer : Option α} (h : Event.ended i id answer ∈ evs) :
    i ∈ endedOf evs := List.mem_filterMap.mpr ⟨_, h, rfl⟩

/-! ## One step of the looking -/

theorem looked_start : Looked ids cachePrefix ([] : List (Event α)) 0 (List.replicate ids.length none) [] where
  length_eq := List.length_replicate
  origin i v hi := by
    rw [List.getElem?_replicate] at hi
    split_ifs at hi
    cases hi
  served i hi := absurd hi List.not_mem_nil
  next_le := Nat.zero_le _
  started_nil := rfl
  ended_nil := rfl
  nodup := List.nodup_nil
  mem_todo i := by simp
  served_lt i hi := absurd hi List.not_mem_nil

theorem Looked.hit {next : ℕ} {out : List (Option α)} {todo : List ℕ} (h : Looked ids cachePrefix evs next out todo)
    {id : String} (hid : ids[next]? = some id) (v : α) :
    Looked ids cachePrefix (evs ++ [.hit next (cachePrefix ++ id) v]) (next + 1) (out.set next (some v)) todo where
  toValues := by
    refine h.toValues.set (List.getElem?_eq_some_iff.mp hid).1 (.inl ⟨id, hid, ?_⟩) fun j hj => ?_
    · exact List.mem_append_right _ (List.mem_singleton_self _)
    · exact List.mem_singleton.mp hj
  next_le := (List.getElem?_eq_some_iff.mp hid).1
  started_nil := by
    rw [startedOf_append, h.started_nil]
    rfl
  ended_nil := by
    rw [endedOf_append, h.ended_nil]
    rfl
  nodup := h.nodup
  mem_todo i := by
    have hserved : servedOf (evs ++ [.hit next (cachePrefix ++ id) v]) = servedOf evs ++ [next] := servedOf_append _ _
    rw [hserved, h.mem_todo, List.mem_append, List.mem_singleton]
    constructor
    · rintro ⟨hlt, hnot⟩
      exact ⟨by omega, by rintro (hmem | rfl) <;> [exact hnot hmem; omega]⟩
    · rintro ⟨hlt, hnot⟩
      exact ⟨by rcases Nat.lt_succ_iff_lt_or_eq.mp hlt with h | rfl <;> [exact h; exact absurd (.inr rfl) hnot],
        fun hmem => hnot (.inl hmem)⟩
  served_lt i hi := by
    rw [servedOf_append, List.mem_append] at hi
    rcases hi with hi | hi
    · exact Nat.lt_succ_of_lt (h.served_lt i hi)
    · rw [List.mem_singleton.mp hi]
      exact Nat.lt_succ_self next

theorem Looked.miss {next : ℕ} {out : List (Option α)} {todo : List ℕ} (h : Looked ids cachePrefix evs next out todo)
    (hlt : next < ids.length) : Looked ids cachePrefix evs (next + 1) out (todo ++ [next]) where
  toValues := h.toValues
  next_le := hlt
  started_nil := h.started_nil
  ended_nil := h.ended_nil
  nodup := by
    refine List.nodup_append.mpr ⟨h.nodup, List.nodup_singleton next, ?_⟩
    rintro i hi _ hnext rfl
    rw [List.mem_singleton.mp hnext, h.mem_todo] at hi
    exact Nat.lt_irrefl next hi.1
  mem_todo i := by
    have hfresh : next ∉ servedOf evs := fun hmem => Nat.lt_irrefl next (h.served_lt next hmem)
    rw [List.mem_append, h.mem_todo, List.mem_singleton, Nat.lt_succ_iff_lt_or_eq]
    constructor
    · rintro (⟨hi, hnot⟩ | rfl)
      · exact ⟨.inl hi, hnot⟩
      · exact ⟨.inr rfl, hfresh⟩
    · rintro ⟨hi | rfl, hnot⟩
      · exact .inl ⟨hi, hnot⟩
      · exact .inr rfl
  served_lt i hi := Nat.lt_succ_of_lt (h.served_lt i hi)

/-! ## One step of the workers -/

theorem Looked.spawn {out : List (Option α)} {todo : List ℕ} (cancelled : Bool)
    (h : Looked ids cachePrefix evs ids.length out todo) : Fetching ids cachePrefix evs out todo false cancelled
      (List.replicate (min enrichWorkers todo.length) .idle) where
  toValues := h.toValues
  once := by
    rw [h.started_nil]
    exact h.nodup
  missed i hi := by
    rw [h.started_nil] at hi
    exact (h.mem_todo i).mp hi
  running := by
    rw [h.started_nil, h.ended_nil, List.nil_append, fetchingOf, List.filterMap_replicate]
    rfl
  complete _ i hi := by
    rw [h.started_nil]
    by_cases hserved : i ∈ servedOf evs
    · exact .inl hserved
    · exact .inr ((h.mem_todo i).mpr ⟨hi, hserved⟩)
  answers i id v hmem := by
    have hended := endedOf_of_mem hmem
    rw [h.ended_nil] at hended
    exact absurd hended List.not_mem_nil
  pending i v hmem := by cases (List.mem_replicate.mp hmem).2
  workers_le := by
    rw [List.length_replicate]
    exact Nat.min_le_left _ _
  manned hne hnil := by
    have hlength := congrArg List.length hnil
    rw [List.length_replicate] at hlength
    have hpos := List.length_pos_iff.mpr hne
    have hworkers : 0 < enrichWorkers := by decide
    simp only [List.length_nil] at hlength
    omega
  closed_queue hclosed := nomatch hclosed

section Working

variable {out : List (Option α)} {closed cancelled : Bool} {workers : List (Worker α)} {queue : List ℕ} {w i : ℕ}

/-- A worker of the call with another task: what is pending stays so, if it is not this worker's. -/
theorem Fetching.answers_set (h : Fetching ids cachePrefix evs out queue closed cancelled workers) {x y : Worker α}
    (hw : workers[w]? = some x) (hx : ∀ j u, x ≠ .fetched j u) {j : ℕ} {id : String} {v : α}
    (hmem : .ended j id (some v) ∈ evs) :
    (∃ u, .fetched j u ∈ workers.set w y) ∨ ∃ u, out[j]? = some (some u) := by
  refine (h.answers j id v hmem).imp_left ?_
  rintro ⟨u, hu⟩
  exact ⟨u, mem_set_of_ne hu hw (fun heq => hx j u heq.symm)⟩

theorem Fetching.crew_set (h : Fetching ids cachePrefix evs out queue closed cancelled workers) (y : Worker α) :
    (workers.set w y).length ≤ enrichWorkers ∧ (queue ≠ [] → workers.set w y ≠ []) := by
  rw [List.length_set, ne_eq (workers.set w y), List.set_eq_nil_iff]
  exact ⟨h.workers_le, h.manned⟩

theorem Fetching.take (h : Fetching ids cachePrefix evs out (i :: queue) closed cancelled workers)
    (hw : workers[w]? = some .idle) (id : String) :
    Fetching ids cachePrefix (evs ++ [.started i id]) out queue closed cancelled (workers.set w (.fetching i)) := by
  have hstarted : startedOf (evs ++ [.started i id]) = startedOf evs ++ [i] := startedOf_append _ _
  have hended : endedOf (evs ++ [.started i id]) = endedOf evs := (endedOf_append _ _).trans (List.append_nil _)
  have hserved : servedOf (evs ++ [.started i id]) = servedOf evs := (servedOf_append _ _).trans (List.append_nil _)
  have hmove : startedOf evs ++ [i] ++ queue = startedOf evs ++ i :: queue := List.append_cons _ _ _ ▸ rfl
  refine { toValues := h.toValues.more rfl, once := ?_, missed := ?_, running := ?_, complete := ?_, answers := ?_,
           pending := ?_, workers_le := ?_, manned := ?_, closed_queue := ?_ }
  · rw [hstarted, hmove]
    exact h.once
  · rw [hstarted, hmove, hserved]
    exact h.missed
  · rw [hstarted, hended]
    have hset : (fetchingOf (workers.set w (.fetching i))).Perm ([i] ++ fetchingOf workers) :=
      fetchingOf_set hw (.fetching i)
    have hrunning := h.running.append_right [i]
    rw [List.append_assoc] at hrunning
    exact hrunning.trans (List.Perm.append_left _ (List.perm_append_comm.trans hset.symm))
  · rw [hstarted, hmove, hserved]
    exact h.complete
  · intro j id' v hmem
    rcases List.mem_append.mp hmem with hmem | hmem
    · exact h.answers_set hw (fun _ _ => nofun) hmem
    · cases List.mem_singleton.mp hmem
  · intro j v hmem
    rcases List.mem_or_eq_of_mem_set hmem with hmem | heq
    · exact (h.pending j v hmem).more _
    · cases heq
  · exact (h.crew_set _).1
  · exact fun _ => (h.crew_set _).2 (List.cons_ne_nil _ _)
  · intro hclosed
    cases h.closed_queue hclosed

def afterAnswer (i : ℕ) : Option α → Worker α
  | some v => .fetched i v
  | none => .idle

theorem Fetching.answer (h : Fetching ids cachePrefix evs out queue closed cancelled workers)
    (hw : workers[w]? = some (.fetching i)) {id : String} (hid : ids[i]? = some id) (answer : Option α) :
    Fetching ids cachePrefix (evs ++ [.ended i id answer]) out queue closed cancelled
      (workers.set w (afterAnswer i answer)) := by
  have hstarted : startedOf (evs ++ [.ended i id answer]) = startedOf evs :=
    (startedOf_append _ _).trans (List.append_nil _)
  have hended : endedOf (evs ++ [.ended i id answer]) = endedOf evs ++ [i] := endedOf_append _ _
  have hserved : servedOf (evs ++ [.ended i id answer]) = servedOf evs :=
    (servedOf_append _ _).trans (List.append_nil _)
  have hlt : w < workers.length := (List.getElem?_eq_some_iff.mp hw).1
  refine { toValues := h.toValues.more rfl, once := ?_, missed := ?_, running := ?_, complete := ?_, answers := ?_,
           pending := ?_, workers_le := ?_, manned := ?_, closed_queue := h.closed_queue }
  · rw [hstarted]
    exact h.once
  · rw [hstarted, hserved]
    exact h.missed
  · rw [hstarted, hended, List.append_assoc]
    have hset := fetchingOf_set hw (afterAnswer i answer)
    have hfree : (afterAnswer i answer).busy = none := by cases answer <;> rfl
    rw [hfree] at hset
    exact h.running.trans (List.Perm.append_left _ hset.symm)
  · rw [hstarted, hserved]
    exact h.complete
  · intro j id' v hmem
    rcases List.mem_append.mp hmem with hmem | hmem
    · exact h.answers_set hw (fun _ _ => nofun) hmem
    · cases List.mem_singleton.mp hmem
      exact .inl ⟨v, List.mem_set hlt _⟩
  · intro j v hmem
    rcases List.mem_or_eq_of_mem_set hmem with hmem | heq
    · exact (h.pending j v hmem).more _
    · cases answer with
      | none => cases heq
      | some u =>
        cases heq
        exact ⟨id, hid, List.mem_append_right _ (List.mem_singleton_self _)⟩
  · exact (h.crew_set _).1
  · exact (h.crew_set _).2

theorem Fetching.store (h : Fetching ids cachePrefix evs out queue closed cancelled workers) {v : α}
    (hw : workers[w]? = some (.fetched i v)) :
    Fetching ids cachePrefix evs (out.set i (some v)) queue closed cancelled (workers.set w .idle) := by
  have horigin := h.pending i v (List.mem_of_getElem? hw)
  have hlt : i < ids.length := by
    obtain ⟨id, hid, -⟩ := horigin
    exact (List.getElem?_eq_some_iff.mp hid).1
  have hvalues : Values ids cachePrefix (evs ++ []) (out.set i (some v)) :=
    h.toValues.set hlt (.inr (horigin.more [])) fun j hj => absurd hj List.not_mem_nil
  rw [List.append_nil] at hvalues
  refine { toValues := hvalues, once := h.once, missed := h.missed, running := ?_, complete := h.complete,
           answers := ?_, pending := ?_, workers_le := ?_, manned := ?_, closed_queue := h.closed_queue }
  · exact h.running.trans (List.Perm.append_left _ (fetchingOf_set hw .idle).symm)
  · intro j id u hmem
    rcases h.answers j id u hmem with ⟨x, hx⟩ | ⟨x, hx⟩
    · by_cases hsame : Worker.fetched j x = Worker.fetched i v
      · cases hsame
        refine .inr ⟨v, ?_⟩
        rw [List.getElem?_set_self (by rw [h.length_eq]; exact hlt)]
      · exact .inl ⟨x, mem_set_of_ne hx hw hsame⟩
    · exact .inr (some_set hx)
  · intro j u hmem
    rcases List.mem_or_eq_of_mem_set hmem with hmem | heq
    · exact h.pending j u hmem
    · cases heq
  · exact (h.crew_set _).1
  · exact (h.crew_set _).2

theorem Fetching.close (h : Fetching ids cachePrefix evs out queue false cancelled workers)
    (hclose : queue = [] ∨ cancelled = true) : Fetching ids cachePrefix evs out [] true cancelled workers where
  toValues := h.toValues
  once := by
    rw [List.append_nil]
    exact h.once.sublist (List.sublist_append_left _ _)
  missed i hi := h.missed i (List.mem_append_left _ (by rwa [List.append_nil] at hi))
  running := h.running
  complete hfull i hi := by
    rcases hfull with hfull | hfull
    · cases hfull
    · have hnil := hclose.resolve_right (by rw [hfull]; exact fun heq => nomatch heq)
      subst hnil
      exact h.complete (.inl rfl) i hi
  answers := h.answers
  pending := h.pending
  workers_le := h.workers_le
  manned hne := absurd rfl hne
  closed_queue _ := rfl

theorem Fetching.cancel (h : Fetching ids cachePrefix evs out queue closed cancelled workers) :
    Fetching ids cachePrefix evs out queue closed true workers :=
  { h with complete := fun hfull => h.complete (.inl (hfull.resolve_right fun heq => nomatch heq)) }

theorem Fetching.finish (h : Fetching ids cachePrefix evs out queue true cancelled workers)
    (hidle : ∀ w ∈ workers, w = .idle) : Finished ids cachePrefix evs out cancelled := by
  obtain rfl := h.closed_queue rfl
  have hnone : fetchingOf workers = [] := by
    rw [fetchingOf, List.filterMap_eq_nil_iff]
    intro w hw
    rw [hidle w hw]
    rfl
  refine { toValues := h.toValues, once := h.once, missed := h.missed, running := ?_, complete := ?_, answers := ?_ }
  · rw [← hnone]
    exact h.running
  · intro hcancelled i hi
    have hmem := h.complete (.inr hcancelled) i hi
    rwa [List.append_nil] at hmem
  · intro i id v hmem
    refine (h.answers i id v hmem).resolve_left ?_
    rintro ⟨u, hu⟩
    cases hidle _ hu

theorem Finished.cancel (h : Finished ids cachePrefix evs out cancelled) : Finished ids cachePrefix evs out true :=
  { h with complete := fun heq => nomatch heq }

end Working

end More

/-! ## A whole run -/

/-- What is left of a fetch. -/
def Call.answerOf (fetch : String → Option α) (c : Call α) (i : ℕ) (fails : Bool) : Option α :=
  if fails then none else c.ids[i]?.bind fetch

theorem Call.step_answer {cached fetch : String → Option α} {c c' : Call α} {w : ℕ} {fails : Bool}
    (h : c.step cached fetch (.answer w fails) = some c') : ∃ out queue closed workers i,
      c.phase = .working out queue closed workers ∧ workers[w]? = some (.fetching i) ∧ c' = { c with
        phase := .working out queue closed (workers.set w (afterAnswer i (c.answerOf fetch i fails))) } := by
  unfold Call.step at h
  split at h
  all_goals try contradiction
  rename_i w fails out queue closed workers haction hphase
  cases haction
  split at h
  · rename_i i hworker
    refine ⟨out, queue, closed, workers, i, hphase, hworker, ?_⟩
    split at h
    · rename_i v hanswer
      cases h
      rw [Call.answerOf, hanswer]
      rfl
    · rename_i hanswer
      cases h
      rw [Call.answerOf, hanswer]
      rfl
  · cases h

section Steps

variable {ids : List String} {cachePrefix : String} {evs : List (Event α)} {c c' : Call α}
  {cached fetch : String → Option α}

theorem Accounts.answer {w : ℕ} {fails : Bool} (h : Accounts ids cachePrefix evs c)
    (hstep : c.step cached fetch (.answer w fails) = some c') :
    Accounts ids cachePrefix (evs ++ c.events cached fetch (.answer w fails)) c' := by
  obtain ⟨hids, hpref, hphase⟩ := h
  obtain ⟨out, queue, closed, workers, i, hc, hworker, rfl⟩ := Call.step_answer hstep
  rw [hc] at hphase
  -- the index is one of those started, so there is an id for it
  have hstarted : i ∈ startedOf evs := by
    refine hphase.running.mem_iff.mpr (List.mem_append_right _ ?_)
    exact List.mem_filterMap.mpr ⟨_, List.mem_of_getElem? hworker, rfl⟩
  have hlt := (hphase.missed i (List.mem_append_left _ hstarted)).1
  have hid : ids[i]? = some ids[i] := List.getElem?_eq_getElem hlt
  have hevents : c.events cached fetch (.answer w fails) = [.ended i ids[i] (c.answerOf fetch i fails)] := by
    simp only [Call.events, hc, hworker, Call.answerOf, hids, hid]
    rfl
  rw [hevents]
  exact ⟨hids, hpref, hphase.answer hworker hid _⟩

theorem Accounts.take {w : ℕ} (h : Accounts ids cachePrefix evs c)
    (hstep : c.step cached fetch (.take w) = some c') :
    Accounts ids cachePrefix (evs ++ c.events cached fetch (.take w)) c' := by
  obtain ⟨hids, hpref, hphase⟩ := h
  cases Call.moves_of_step hstep with
  | @take _ i out queue workers hc hworker =>
    rw [hc] at hphase
    have hlt := (hphase.missed i (List.mem_append_right _ List.mem_cons_self)).1
    have hid : ids[i]? = some ids[i] := List.getElem?_eq_getElem hlt
    have hevents : c.events cached fetch (.take w) = [.started i ids[i]] := by
      simp only [Call.events, hc, hids, hid]
      rfl
    rw [hevents]
    exact ⟨hids, hpref, hphase.take hworker _⟩

theorem Accounts.look (h : Accounts ids cachePrefix evs c) (hstep : c.step cached fetch .look = some c') :
    Accounts ids cachePrefix (evs ++ c.events cached fetch .look) c' := by
  obtain ⟨hids, hpref, hphase⟩ := h
  cases Call.moves_of_step hstep with
  | @hit next out todo id v hc hid hcached =>
    rw [hc] at hphase
    have hevents : c.events cached fetch .look = [.hit next (cachePrefix ++ id) v] := by
      rw [hpref] at hcached
      simp only [Call.events, hc, hid, Option.bind_some, hpref, hcached]
      rfl
    rw [hevents]
    exact ⟨hids, hpref, hphase.hit (hids ▸ hid) v⟩
  | @miss next out todo id hc hid hcached =>
    rw [hc] at hphase
    have hevents : c.events cached fetch .look = [] := by
      simp only [Call.events, hc, hid, Option.bind_some, hcached]
      rfl
    rw [hevents, List.append_nil]
    exact ⟨hids, hpref, hphase.miss (hids ▸ (List.getElem?_eq_some_iff.mp hid).1)⟩

/-- Every step keeps the accounts. -/
theorem Accounts.step {a : CallAction} (h : Accounts ids cachePrefix evs c)
    (hstep : c.step cached fetch a = some c') : Accounts ids cachePrefix (evs ++ c.events cached fetch a) c' := by
  have hmoves := Call.moves_of_step hstep
  have hsilent : Accounts ids cachePrefix evs c' → c.events cached fetch a = [] →
      Accounts ids cachePrefix (evs ++ c.events cached fetch a) c' := by
    intro hnext hevents
    rwa [hevents, List.append_nil]
  obtain ⟨hids, hpref, hphase⟩ := id h
  cases hmoves with
  | purge hc =>
    rw [hc] at hphase
    obtain rfl : evs = [] := hphase
    exact hsilent ⟨hids, hpref, hids ▸ looked_start⟩ rfl
  | hit hc hid hcached => exact h.look hstep
  | miss hc hid hcached => exact h.look hstep
  | spawn hc =>
    rw [hc, hids] at hphase
    exact hsilent ⟨hids, hpref, hphase.spawn c.cancelled⟩ rfl
  | take hc hworker => exact h.take hstep
  | answered hc hworker hid hfetch => exact h.answer hstep
  | failed hc hworker => exact h.answer hstep
  | store hc hworker =>
    rw [hc] at hphase
    exact hsilent ⟨hids, hpref, hphase.store hworker⟩ rfl
  | close hc hclose =>
    rw [hc] at hphase
    exact hsilent ⟨hids, hpref, hphase.close hclose⟩ rfl
  | cancel =>
    refine hsilent ⟨hids, hpref, ?_⟩ rfl
    dsimp only
    split at hphase
    · exact hphase
    · exact hphase
    · exact hphase.cancel
    · exact hphase.cancel
  | finish hc hidle =>
    rw [hc] at hphase
    exact hsilent ⟨hids, hpref, hphase.finish hidle⟩ rfl

end Steps

end GarageConsole.Lists
