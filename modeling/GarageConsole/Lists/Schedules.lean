import Mathlib.Algebra.GroupWithZero.Nat
import GarageConsole.Lists.Accounts

/-! # Every schedule of the concurrent lookups

A run of `fetchInfoConcurrently` is any order of its steps, with a cache and fetches that answer anew at every step
and a context that may be cancelled at any time.
-/

namespace GarageConsole.Lists

set_option autoImplicit false

variable {α : Type}

/-- The runs of a call, with the steps taken and what they did. -/
inductive Call.Run (c₀ : Call α) : List CallAction → List (Event α) → Call α → Prop where
  | start : Run c₀ [] [] c₀
  | step {acts : List CallAction} {evs : List (Event α)} {c c' : Call α} {a : CallAction}
      {cached fetch : String → Option α} : Run c₀ acts evs c → c.step cached fetch a = some c' →
      Run c₀ (acts ++ [a]) (evs ++ c.events cached fetch a) c'

/-- The accounts of every state that a call gets into. -/
theorem Call.Run.accounts {c₀ c : Call α} {acts : List CallAction} {evs : List (Event α)}
    (hstart : c₀.phase = .starting) (h : c₀.Run acts evs c) : Accounts c₀.ids c₀.cachePrefix evs c := by
  induction h with
  | start => exact ⟨rfl, rfl, by rw [hstart]⟩
  | step _ hstep ih => exact ih.step hstep

theorem Call.Run.cancelled {c₀ c : Call α} {acts : List CallAction} {evs : List (Event α)} (h : c₀.Run acts evs c)
    (hc : c.cancelled = true) : c₀.cancelled = true ∨ .cancel ∈ acts := by
  induction h with
  | start => exact .inl hc
  | @step acts evs c c' a cached fetch _ hstep ih =>
    cases Call.moves_of_step hstep with
    | cancel => exact .inr (List.mem_append_right _ (List.mem_singleton_self _))
    | _ => exact (ih hc).imp_right (List.mem_append_left _)

theorem Call.Run.not_cancelled {c₀ c : Call α} {acts : List CallAction} {evs : List (Event α)} (h : c₀.Run acts evs c)
    (hc₀ : c₀.cancelled = false) (hacts : .cancel ∉ acts) : c.cancelled = false := by
  refine Bool.eq_false_iff.mpr fun hc => ?_
  rcases h.cancelled hc with hc | hc
  · rw [hc₀] at hc
    cases hc
  · exact hacts hc

theorem Call.Run.finished {c₀ c : Call α} {acts : List CallAction} {evs : List (Event α)} {out : List (Option α)}
    (hstart : c₀.phase = .starting) (h : c₀.Run acts evs c) (hout : c.phase = .returned out) :
    Finished c₀.ids c₀.cachePrefix evs out c.cancelled := by
  have hphase := (h.accounts hstart).2.2
  rwa [hout] at hphase

/-- A fetch that has ended was one for the id at its index. -/
theorem Call.mem_events {cached fetch : String → Option α} {c : Call α} {a : CallAction} {i : ℕ} {id : String}
    {answer : Option α} (h : .ended i id answer ∈ c.events cached fetch a) : c.ids[i]? = some id := by
  unfold Call.events at h
  split at h
  · simp only [Option.mem_toList, Option.bind_eq_some_iff, Option.map_eq_some_iff] at h
    obtain ⟨_, _, _, _, heq⟩ := h
    cases heq
  · simp only [Option.mem_toList, Option.map_eq_some_iff] at h
    obtain ⟨_, _, heq⟩ := h
    cases heq
  · split at h
    · simp only [Option.mem_toList, Option.map_eq_some_iff] at h
      obtain ⟨id', hid, heq⟩ := h
      cases heq
      exact hid
    · cases h
  · cases h

theorem Call.Run.ended_id {c₀ c : Call α} {acts : List CallAction} {evs : List (Event α)}
    (hstart : c₀.phase = .starting) (h : c₀.Run acts evs c) {i : ℕ} {id : String} {answer : Option α}
    (hmem : .ended i id answer ∈ evs) : c₀.ids[i]? = some id := by
  induction h with
  | start => cases hmem
  | step hrun _ ih =>
    rcases List.mem_append.mp hmem with hmem | hmem
    · exact ih hmem
    · rw [← (hrun.accounts hstart).1]
      exact Call.mem_events hmem

/-! ## The end of a run -/

def Worker.work : Worker α → ℕ
  | .idle => 0
  | .fetching _ => 2
  | .fetched _ _ => 1

/-- How many steps a call has left at most, without those that cancel it. -/
def Call.work (c : Call α) : ℕ :=
  match c.phase with
  | .starting => 4 * c.ids.length + 4
  | .looking next _ todo => 4 * (c.ids.length - next) + 3 * todo.length + 3
  | .working _ queue closed workers => 3 * queue.length + (workers.map Worker.work).sum + if closed then 1 else 2
  | .returned _ => 0

theorem work_set {workers : List (Worker α)} {w : ℕ} {x : Worker α} (h : workers[w]? = some x) (y : Worker α) :
    x.work + ((workers.set w y).map Worker.work).sum = y.work + (workers.map Worker.work).sum := by
  have hsum := ((perm_set h y).map Worker.work).sum_nat
  rwa [List.map_cons, List.sum_cons, List.map_cons, List.sum_cons] at hsum

theorem work_replicate_idle (n : ℕ) : ((List.replicate n (.idle : Worker α)).map Worker.work).sum = 0 := by
  rw [List.map_replicate, List.sum_replicate_nat]
  exact Nat.mul_zero n

/-- A step that does not cancel is one less to do. -/
theorem Call.Moves.work_lt {cached fetch : String → Option α} {c c' : Call α} {a : CallAction}
    (h : c.Moves cached fetch a c') (ha : a ≠ .cancel) : c'.work < c.work := by
  cases h with
  | purge hc =>
    simp only [Call.work, hc, List.length_nil]
    omega
  | hit hc hid hcached =>
    have hlt := (List.getElem?_eq_some_iff.mp hid).1
    simp only [Call.work, hc]
    omega
  | miss hc hid hcached =>
    have hlt := (List.getElem?_eq_some_iff.mp hid).1
    simp only [Call.work, hc, List.length_append, List.length_singleton]
    omega
  | spawn hc =>
    simp only [Call.work, hc, work_replicate_idle, Bool.false_eq_true, if_false]
    omega
  | @take w i out queue workers hc hworker =>
    have hset := work_set hworker (.fetching i)
    simp only [Worker.work] at hset
    simp only [Call.work, hc, List.length_cons]
    omega
  | @answered w i out queue closed workers id v hc hworker hid hfetch =>
    have hset := work_set hworker (.fetched i v)
    simp only [Worker.work] at hset
    simp only [Call.work, hc]
    omega
  | failed hc hworker =>
    have hset := work_set hworker .idle
    simp only [Worker.work] at hset
    simp only [Call.work, hc]
    omega
  | store hc hworker =>
    have hset := work_set hworker .idle
    simp only [Worker.work] at hset
    simp only [Call.work, hc]
    omega
  | close hc hclose =>
    simp only [Call.work, hc, List.length_nil, Bool.false_eq_true, if_false, if_true]
    omega
  | cancel => exact absurd rfl ha
  | finish hc hidle =>
    simp only [Call.work, hc, if_true]
    omega

theorem Call.Run.work_le {c₀ c : Call α} {acts : List CallAction} {evs : List (Event α)} (h : c₀.Run acts evs c) :
    acts.countP (· ≠ .cancel) + c.work ≤ c₀.work := by
  induction h with
  | start => simp
  | @step acts evs c c' a cached fetch _ hstep ih =>
    rw [List.countP_append, List.countP_singleton]
    have hmoves := Call.moves_of_step hstep
    by_cases ha : a = .cancel
    · subst ha
      cases hmoves
      exact ih
    · have hlt := hmoves.work_lt ha
      rw [if_pos (decide_eq_true ha)]
      omega

/-- A step that the call makes by itself: the rest is up to Garage and to the context. -/
def CallAction.own : CallAction → Bool
  | .answer _ _ => false
  | .cancel => false
  | _ => true

section Progress

variable {ids : List String} {cachePrefix : String} {evs : List (Event α)} {c : Call α}

theorem Looked.goes_on {next : ℕ} {out : List (Option α)} {todo : List ℕ}
    (h : Looked ids cachePrefix evs next out todo) (hids : c.ids = ids) (hc : c.phase = .looking next out todo)
    (cached fetch : String → Option α) : ∃ a, a.own = true ∧ (c.step cached fetch a).isSome = true := by
  rcases Nat.lt_or_eq_of_le h.next_le with hlt | heq
  · have hid : c.ids[next]? = some ids[next] := hids ▸ List.getElem?_eq_getElem hlt
    refine ⟨.look, rfl, ?_⟩
    simp only [Call.step, hc, hid]
    cases cached (c.cachePrefix ++ ids[next]) <;> rfl
  · refine ⟨.spawn, rfl, ?_⟩
    simp only [Call.step, hc, hids, heq, if_true, Option.isSome_some]

/-- Workers that are all free take what waits, or nothing does. -/
theorem Fetching.goes_on_idle {out : List (Option α)} {queue : List ℕ} {closed cancelled : Bool}
    {workers : List (Worker α)} (h : Fetching ids cachePrefix evs out queue closed cancelled workers)
    (hc : c.phase = .working out queue closed workers) (hidle : ∀ w ∈ workers, w = .idle)
    (cached fetch : String → Option α) : ∃ a, a.own = true ∧ (c.step cached fetch a).isSome = true := by
  cases closed with
  | true =>
    refine ⟨.finish, rfl, ?_⟩
    simp only [Call.step, hc]
    rw [if_pos (List.all_eq_true.mpr fun w hw => by rw [hidle w hw]), Option.isSome_some]
  | false =>
    cases queue with
    | nil =>
      refine ⟨.close, rfl, ?_⟩
      simp only [Call.step, hc, true_or, if_true, Option.isSome_some]
    | cons i queue =>
      -- something waits, so there is a worker
      obtain ⟨x, rest, rfl⟩ := List.exists_cons_of_ne_nil (h.manned (List.cons_ne_nil i queue))
      obtain rfl := hidle x List.mem_cons_self
      refine ⟨.take 0, rfl, ?_⟩
      simp only [Call.step, hc, List.getElem?_cons_zero, Option.isSome_some]

theorem Fetching.goes_on {out : List (Option α)} {queue : List ℕ} {closed cancelled : Bool}
    {workers : List (Worker α)} (h : Fetching ids cachePrefix evs out queue closed cancelled workers)
    (hc : c.phase = .working out queue closed workers) (hfetching : fetchingOf workers = [])
    (cached fetch : String → Option α) : ∃ a, a.own = true ∧ (c.step cached fetch a).isSome = true := by
  by_cases hidle : ∀ w ∈ workers, w = .idle
  · exact h.goes_on_idle hc hidle cached fetch
  · obtain ⟨x, hx, hne⟩ := not_forall₂.mp hidle
    obtain ⟨w, hw⟩ := List.getElem?_of_mem hx
    cases x with
    | idle => exact absurd rfl hne
    | fetching i =>
      rw [fetchingOf, List.filterMap_eq_nil_iff] at hfetching
      cases hfetching _ hx
    | fetched i v =>
      refine ⟨.store w, rfl, ?_⟩
      simp only [Call.step, hc, hw, Option.isSome_some]

/-- A call that has not returned goes on, or waits for a fetch. -/
theorem Accounts.progress (h : Accounts ids cachePrefix evs c) :
    (∃ out, c.phase = .returned out) ∨ (endedOf evs).length < (startedOf evs).length ∨
      ∀ cached fetch, ∃ a, a.own = true ∧ (c.step cached fetch a).isSome = true := by
  obtain ⟨hids, -, hphase⟩ := h
  cases hc : c.phase with
  | starting =>
    refine .inr (.inr fun cached fetch => ⟨.purge, rfl, ?_⟩)
    simp only [Call.step, hc, Option.isSome_some]
  | looking next out todo =>
    rw [hc] at hphase
    exact .inr (.inr (hphase.goes_on hids hc))
  | working out queue closed workers =>
    rw [hc] at hphase
    by_cases hfetching : fetchingOf workers = []
    · exact .inr (.inr (hphase.goes_on hc hfetching))
    · have hlength := hphase.running.length_eq
      have hpos := List.length_pos_iff.mpr hfetching
      rw [List.length_append] at hlength
      exact .inr (.inl (by omega))
  | returned out => exact .inl ⟨out, rfl⟩

end Progress

theorem Accounts.running_le {ids : List String} {cachePrefix : String} {evs : List (Event α)} {c : Call α}
    (h : Accounts ids cachePrefix evs c) : (startedOf evs).length ≤ (endedOf evs).length + enrichWorkers := by
  obtain ⟨-, -, hphase⟩ := h
  split at hphase
  · rw [hphase]
    exact Nat.zero_le _
  · rw [hphase.started_nil]
    exact Nat.zero_le _
  · have hworkers := (List.length_filterMap_le Worker.busy _).trans hphase.workers_le
    rw [hphase.running.length_eq, List.length_append]
    exact Nat.add_le_add_left hworkers _
  · rw [hphase.running.length_eq, List.append_nil]
    exact Nat.le_add_right _ _

theorem Accounts.started_once {ids : List String} {cachePrefix : String} {evs : List (Event α)} {c : Call α}
    (h : Accounts ids cachePrefix evs c) :
    (startedOf evs).Nodup ∧ ∀ i ∈ startedOf evs, i < ids.length ∧ i ∉ servedOf evs := by
  have hfed : ∀ {queue fetching : List ℕ}, Fed ids evs queue fetching →
      (startedOf evs).Nodup ∧ ∀ i ∈ startedOf evs, i < ids.length ∧ i ∉ servedOf evs := fun hfed =>
    ⟨hfed.once.sublist (List.sublist_append_left _ _), fun i hi => hfed.missed i (List.mem_append_left _ hi)⟩
  obtain ⟨-, -, hphase⟩ := h
  split at hphase
  · rw [hphase]
    exact ⟨List.nodup_nil, nofun⟩
  · rw [hphase.started_nil]
    exact ⟨List.nodup_nil, nofun⟩
  · exact hfed hphase.toFed
  · exact hfed hphase.toFed

/-- Without cancellation each index has its value, or its own fetch failed. -/
theorem Finished.none_failed {ids : List String} {cachePrefix : String} {evs : List (Event α)}
    {out : List (Option α)} (h : Finished ids cachePrefix evs out false) {i : ℕ} (hi : out[i]? = some none) :
    ∃ id, .ended i id none ∈ evs := by
  have hlt : i < ids.length := h.length_eq ▸ (List.getElem?_eq_some_iff.mp hi).1
  have hnone : ¬∃ v, out[i]? = some (some v) := by
    rintro ⟨v, hv⟩
    rw [hi] at hv
    cases hv
  have hstarted := (h.complete rfl i hlt).resolve_left fun hserved => hnone (h.served i hserved)
  have hended : i ∈ endedOf evs := by
    rw [← List.append_nil (endedOf evs)]
    exact h.running.mem_iff.mp hstarted
  obtain ⟨e, he, hstop⟩ := List.mem_filterMap.mp hended
  cases e with
  | hit _ _ _ => cases hstop
  | started _ _ => cases hstop
  | ended j id answer =>
    obtain rfl := Option.some.inj hstop
    cases answer with
    | none => exact ⟨id, he⟩
    | some v => exact absurd (h.answers j id v he) hnone

/-- If what the cache gives and what the fetches answer are always these values, then so is the result. -/
theorem Call.Run.out_eq {c₀ c : Call α} {acts : List CallAction} {evs : List (Event α)} {out : List (Option α)}
    (hstart : c₀.phase = .starting) (h : c₀.Run acts evs c) (hout : c.phase = .returned out)
    (hc₀ : c₀.cancelled = false) (hacts : .cancel ∉ acts) {values : List α} (hlength : values.length = c₀.ids.length)
    (hhit : ∀ i v, FromCache c₀.ids c₀.cachePrefix evs i v → values[i]? = some v)
    (hended : ∀ i id answer, c₀.ids[i]? = some id → .ended i id answer ∈ evs → answer = values[i]?) :
    out = values.map some := by
  have hfinished := h.finished hstart hout
  rw [h.not_cancelled hc₀ hacts] at hfinished
  apply List.ext_getElem?
  intro i
  rw [List.getElem?_map]
  cases hi : out[i]? with
  | none =>
    have hle := List.getElem?_eq_none_iff.mp hi
    rw [hfinished.length_eq, ← hlength] at hle
    rw [List.getElem?_eq_none hle]
    rfl
  | some value =>
    cases value with
    | none =>
      obtain ⟨id, hmem⟩ := hfinished.none_failed hi
      have hlt := (List.getElem?_eq_some_iff.mp hi).1
      rw [hfinished.length_eq, ← hlength] at hlt
      have hnone := hended i id none (h.ended_id hstart hmem) hmem
      rw [List.getElem?_eq_getElem hlt] at hnone
      cases hnone
    | some v =>
      rcases hfinished.origin i v hi with hcache | ⟨id, hid, hmem⟩
      · rw [hhit i v hcache]
        rfl
      · rw [← hended i id (some v) hid hmem]
        rfl

/-- **Every schedule of the lookups.** At no time do more than `enrichWorkers` fetches run; one index has one fetch at
most, and none if the cache serves it. The result has a place for each id, with a value that is of this id, or
nothing; no fetch still runs then, and without cancellation each index is served or fetched, and is empty only if its
own fetch failed. The call does not take more than `4 * c₀.ids.length + 4` steps, and as long as it has not returned
and no fetch runs, it can go on. -/
theorem lookups_aligned {c₀ c : Call α} {acts : List CallAction} {evs : List (Event α)}
    (hstart : c₀.phase = .starting) (h : c₀.Run acts evs c) :
    (startedOf evs).length ≤ (endedOf evs).length + enrichWorkers ∧
      ((startedOf evs).Nodup ∧ ∀ i ∈ startedOf evs, i < c₀.ids.length ∧ i ∉ servedOf evs) ∧
      (∀ out, c.phase = .returned out → out.length = c₀.ids.length ∧ (startedOf evs).Perm (endedOf evs) ∧
        (∀ i v, out[i]? = some (some v) →
          FromCache c₀.ids c₀.cachePrefix evs i v ∨ FromFetch c₀.ids evs i v) ∧
        (c₀.cancelled = false → .cancel ∉ acts →
          (∀ i < c₀.ids.length, i ∈ servedOf evs ∨ (startedOf evs).count i = 1) ∧
          ∀ i, out[i]? = some none → ∃ id, c₀.ids[i]? = some id ∧ .ended i id none ∈ evs)) ∧
      acts.countP (· ≠ .cancel) ≤ 4 * c₀.ids.length + 4 ∧
      ((∃ out, c.phase = .returned out) ∨ (endedOf evs).length < (startedOf evs).length ∨
        ∀ cached fetch, ∃ a, a.own = true ∧ (c.step cached fetch a).isSome = true) := by
  have haccounts := h.accounts hstart
  refine ⟨haccounts.running_le, haccounts.started_once, fun out hout => ?_, ?_, haccounts.progress⟩
  · have hfinished := h.finished hstart hout
    have hrunning := hfinished.running
    rw [List.append_nil] at hrunning
    refine ⟨hfinished.length_eq, hrunning, hfinished.origin, fun hc₀ hacts => ?_⟩
    rw [h.not_cancelled hc₀ hacts] at hfinished
    refine ⟨fun i hi => (hfinished.complete rfl i hi).imp_right ?_, fun i hi => ?_⟩
    · exact List.count_eq_one_of_mem haccounts.started_once.1
    · obtain ⟨id, hid⟩ := hfinished.none_failed hi
      exact ⟨id, h.ended_id hstart hid, hid⟩
  · have hwork := h.work_le
    rw [show c₀.work = 4 * c₀.ids.length + 4 by rw [Call.work, hstart]] at hwork
    exact (Nat.le_add_right _ _).trans hwork

/-- Three ids, two of them the same: one is in the cache, one is fetched, and one fetch fails. -/
def threeIds : Call ℕ := { cachePrefix := "", ids := ["a", "b", "b"] }

def threeActions : List CallAction :=
  [.purge, .look, .look, .look, .spawn, .take 0, .take 1, .answer 1 true, .answer 0 false, .store 0, .close, .finish]

def threeEvents : List (Event ℕ) :=
  [.hit 0 ("" ++ "a") 1, .started 1 "b", .started 2 "b", .ended 2 "b" none, .ended 1 "b" (some 2)]

theorem threeIds_run : threeIds.Run threeActions threeEvents
    { threeIds with phase := .returned [some 1, some 2, none] } := by
  have full {acts evs} {c c' : Call ℕ} (h : threeIds.Run acts evs c) (a : CallAction)
      (hstep : c.step (fun _ => some 1) (fun _ => some 2) a = some c') := h.step hstep
  have empty {acts evs} {c c' : Call ℕ} (h : threeIds.Run acts evs c) (a : CallAction)
      (hstep : c.step (fun _ => none) (fun _ => some 2) a = some c') := h.step hstep
  have purged := full .start .purge rfl
  have looked₀ := full purged .look rfl
  have looked₁ := empty looked₀ .look rfl
  have looked₂ := empty looked₁ .look rfl
  have spawned := empty looked₂ .spawn rfl
  have taken₀ := empty spawned (.take 0) rfl
  have taken₁ := empty taken₀ (.take 1) rfl
  have failed := empty taken₁ (.answer 1 true) rfl
  have answered := empty failed (.answer 0 false) rfl
  have stored := empty answered (.store 0) rfl
  have closed := empty stored .close rfl
  exact empty closed .finish rfl

theorem lookups_aligned_three : (startedOf threeEvents).length ≤ (endedOf threeEvents).length + enrichWorkers ∧
    ∃ id, threeIds.ids[2]? = some id ∧ .ended 2 id none ∈ threeEvents := by
  obtain ⟨hbound, -, hreturned, -⟩ := lookups_aligned rfl threeIds_run
  exact ⟨hbound, ((hreturned _ rfl).2.2.2 rfl (by decide)).2 2 rfl⟩

end GarageConsole.Lists
