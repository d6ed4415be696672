import GarageConsole.Lists.Cache

/-! # Looking up many items at once

`fetchInfoConcurrently`, step by step. The call first looks every id up in the cache; the ids that are not
there are fed to at most `enrichWorkers` workers, each of which fetches one id at a time and puts the
answer into the cache. What the cache holds and what a fetch answers is given from outside.
-/

namespace GarageConsole.Lists

set_option autoImplicit false

variable {α : Type}

def enrichWorkers : ℕ := 8

/-- A goroutine: waiting for an index, fetching it, or about to store what was answered. -/
inductive Worker (α : Type) where
  | idle
  | fetching (i : ℕ)
  | fetched (i : ℕ) (v : α)
  deriving DecidableEq

/-- How far a call is. `next` ids were looked up; `queue` are the indices still to be fed to the workers,
and `closed` says that no more are. -/
inductive Phase (α : Type) where
  | starting
  | looking (next : ℕ) (out : List (Option α)) (todo : List ℕ)
  | working (out : List (Option α)) (queue : List ℕ) (closed : Bool) (workers : List (Worker α))
  | returned (out : List (Option α))
  deriving DecidableEq

structure Call (α : Type) where
  cachePrefix : String
  ids : List String
  cancelled : Bool := false
  phase : Phase α := .starting
  deriving DecidableEq

inductive CallAction where
  | purge
  | look
  | spawn
  | take (w : ℕ)
  | answer (w : ℕ) (fails : Bool)
  | store (w : ℕ)
  | close
  | cancel
  | finish
  deriving DecidableEq

def Call.step (cached fetch : String → Option α) (c : Call α) (a : CallAction) : Option (Call α) :=
  match a, c.phase with
  | .purge, .starting => some { c with phase := .looking 0 (List.replicate c.ids.length none) [] }
  | .look, .looking next out todo =>
    match c.ids[next]? with
    | none => none
    | some id =>
      match cached (c.cachePrefix ++ id) with
      | some v => some { c with phase := .looking (next + 1) (out.set next (some v)) todo }
      | none => some { c with phase := .looking (next + 1) out (todo ++ [next]) }
  | .spawn, .looking next out todo =>
    if next = c.ids.length then
      some { c with phase := .working out todo false (List.replicate (min enrichWorkers todo.length) .idle) }
    else none
  | .take w, .working out (i :: queue) false workers =>
    match workers[w]? with
    | some .idle => some { c with phase := .working out queue false (workers.set w (.fetching i)) }
    | _ => none
  | .answer w fails, .working out queue closed workers =>
    match workers[w]? with
    | some (.fetching i) =>
      match if fails then none else c.ids[i]?.bind fetch with
      | some v => some { c with phase := .working out queue closed (workers.set w (.fetched i v)) }
      | none => some { c with phase := .working out queue closed (workers.set w .idle) }
    | _ => none
  | .store w, .working out queue closed workers =>
    match workers[w]? with
    | some (.fetched i v) =>
      some { c with phase := .working (out.set i (some v)) queue closed (workers.set w .idle) }
    | _ => none
  -- the feeding ends when everything was fed, or because the context is done
  | .close, .working out queue false workers =>
    if queue = [] ∨ c.cancelled then some { c with phase := .working out [] true workers } else none
  | .cancel, _ => some { c with cancelled := true }
  | .finish, .working out _ true workers =>
    if workers.all fun w => match w with
      | .idle => true
      | _ => false then some { c with phase := .returned out }
    else none
  | _, _ => none

def Call.puts (c : Call α) (a : CallAction) : Option (String × α) :=
  match a, c.phase with
  | .store w, .working _ _ _ workers =>
    match workers[w]? with
    | some (.fetched i v) => c.ids[i]?.map fun id => (c.cachePrefix ++ id, v)
    | _ => none
  | _, _ => none

/-! ## What a step can do -/

inductive Call.Moves (cached fetch : String → Option α) (c : Call α) : CallAction → Call α → Prop where
  | purge : c.phase = .starting →
      Moves cached fetch c .purge { c with phase := .looking 0 (List.replicate c.ids.length none) [] }
  | hit {next : ℕ} {out : List (Option α)} {todo : List ℕ} {id : String} {v : α} :
      c.phase = .looking next out todo → c.ids[next]? = some id → cached (c.cachePrefix ++ id) = some v →
      Moves cached fetch c .look { c with phase := .looking (next + 1) (out.set next (some v)) todo }
  | miss {next : ℕ} {out : List (Option α)} {todo : List ℕ} {id : String} :
      c.phase = .looking next out todo → c.ids[next]? = some id → cached (c.cachePrefix ++ id) = none →
      Moves cached fetch c .look { c with phase := .looking (next + 1) out (todo ++ [next]) }
  | spawn {out : List (Option α)} {todo : List ℕ} : c.phase = .looking c.ids.length out todo →
      Moves cached fetch c .spawn
        { c with phase := .working out todo false (List.replicate (min enrichWorkers todo.length) .idle) }
  | take {w i : ℕ} {out : List (Option α)} {queue : List ℕ} {workers : List (Worker α)} :
      c.phase = .working out (i :: queue) false workers → workers[w]? = some .idle →
      Moves cached fetch c (.take w) { c with phase := .working out queue false (workers.set w (.fetching i)) }
  | answered {w i : ℕ} {out : List (Option α)} {queue : List ℕ} {closed : Bool} {workers : List (Worker α)}
      {id : String} {v : α} : c.phase = .working out queue closed workers → workers[w]? = some (.fetching i) →
      c.ids[i]? = some id → fetch id = some v →
      Moves cached fetch c (.answer w false)
        { c with phase := .working out queue closed (workers.set w (.fetched i v)) }
  | failed {w i : ℕ} {fails : Bool} {out : List (Option α)} {queue : List ℕ} {closed : Bool}
      {workers : List (Worker α)} : c.phase = .working out queue closed workers →
      workers[w]? = some (.fetching i) →
      Moves cached fetch c (.answer w fails) { c with phase := .working out queue closed (workers.set w .idle) }
  | store {w i : ℕ} {out : List (Option α)} {queue : List ℕ} {closed : Bool} {workers : List (Worker α)} {v : α} :
      c.phase = .working out queue closed workers → workers[w]? = some (.fetched i v) →
      Moves cached fetch c (.store w)
        { c with phase := .working (out.set i (some v)) queue closed (workers.set w .idle) }
  | close {out : List (Option α)} {queue : List ℕ} {workers : List (Worker α)} :
      c.phase = .working out queue false workers → queue = [] ∨ c.cancelled = true →
      Moves cached fetch c .close { c with phase := .working out [] true workers }
  | cancel : Moves cached fetch c .cancel { c with cancelled := true }
  | finish {out : List (Option α)} {queue : List ℕ} {workers : List (Worker α)} :
      c.phase = .working out queue true workers → (∀ w ∈ workers, w = .idle) →
      Moves cached fetch c .finish { c with phase := .returned out }

theorem Call.moves_of_step {cached fetch : String → Option α} {c c' : Call α} {a : CallAction}
    (h : c.step cached fetch a = some c') : c.Moves cached fetch a c' := by
  unfold Call.step at h
  split at h
  · rename_i hphase
    cases h
    exact .purge hphase
  · rename_i next out todo hphase
    split at h
    · cases h
    · rename_i id hid
      split at h
      · rename_i v hcached
        cases h
        exact .hit hphase hid hcached
      · rename_i hcached
        cases h
        exact .miss hphase hid hcached
  · rename_i next out todo hphase
    split_ifs at h with hnext
    cases h
    exact .spawn (hnext ▸ hphase)
  · rename_i w out i queue workers hphase
    split at h
    · rename_i hworker
      cases h
      exact .take hphase hworker
    · cases h
  · rename_i w fails out queue closed workers hphase
    split at h
    · rename_i i hworker
      split at h
      · rename_i v hanswer
        cases h
        cases fails with
        | true => cases hanswer
        | false =>
          obtain ⟨id, hid, hfetch⟩ := Option.bind_eq_some_iff.mp hanswer
          exact .answered hphase hworker hid hfetch
      · cases h
        exact .failed hphase hworker
    · cases h
  · rename_i w out queue closed workers hphase
    split at h
    · rename_i i v hworker
      cases h
      exact .store hphase hworker
    · cases h
  · rename_i out queue workers hphase
    split_ifs at h with hclose
    cases h
    exact .close hphase hclose
  · cases h
    exact .cancel
  · rename_i out queue workers hphase
    split_ifs at h with hidle
    cases h
    refine .finish hphase fun w hw => ?_
    have := List.all_eq_true.mp hidle w hw
    cases w with
    | idle => rfl
    | fetching i => cases this
    | fetched i v => cases this
  · cases h

/-! ## The values a call has seen -/

/-- The value is in the result, or on its way there. -/
def Phase.Holds (p : Phase α) (v : α) : Prop :=
  match p with
  | .starting => False
  | .looking _ out _ => some v ∈ out
  | .working out _ _ workers => some v ∈ out ∨ ∃ i, .fetched i v ∈ workers
  | .returned out => some v ∈ out

theorem Phase.holds_set {out : List (Option α)} {queue queue' : List ℕ} {closed closed' : Bool}
    {workers : List (Worker α)} {w : ℕ} {x : Worker α} {v : α}
    (h : (Phase.working out queue' closed' (workers.set w x)).Holds v) :
    (Phase.working out queue closed workers).Holds v ∨ ∃ i, x = .fetched i v := by
  rcases h with h | ⟨i, h⟩
  · exact .inl (.inl h)
  · rcases List.mem_or_eq_of_mem_set h with h | h
    · exact .inl (.inr ⟨i, h⟩)
    · exact .inr ⟨i, h.symm⟩

theorem mem_set_of_ne {β : Type} {l : List β} {i : ℕ} {x y z : β} (hmem : y ∈ l) (hget : l[i]? = some x) (hne : y ≠ x) :
    y ∈ l.set i z := by
  obtain ⟨j, hj⟩ := List.mem_iff_getElem?.mp hmem
  have hij : i ≠ j := by
    rintro rfl
    exact hne (Option.some.inj (hj.symm.trans hget))
  exact List.mem_of_getElem? ((List.getElem?_set_ne hij).trans hj)

/-- **Where a value comes from.** After a step a call holds what it held, what the cache gave, or what a fetch
answered. -/
theorem Call.Moves.holds {cached fetch : String → Option α} {c c' : Call α} {a : CallAction}
    (h : c.Moves cached fetch a c') {v : α} (hv : c'.phase.Holds v) :
    c.phase.Holds v ∨ (∃ key, cached key = some v) ∨ ∃ id, fetch id = some v := by
  cases h with
  | purge hphase =>
    obtain ⟨-, hnone⟩ := List.mem_replicate.mp hv
    cases hnone
  | hit hphase hid hcached =>
    rw [hphase]
    rcases List.mem_or_eq_of_mem_set hv with hv | hv
    · exact .inl hv
    · cases hv
      exact .inr (.inl ⟨_, hcached⟩)
  | miss hphase hid hcached =>
    rw [hphase]
    exact .inl hv
  | spawn hphase =>
    rw [hphase]
    rcases hv with hv | ⟨i, hv⟩
    · exact .inl hv
    · cases (List.mem_replicate.mp hv).2
  | take hphase hworker =>
    rw [hphase]
    refine (Phase.holds_set hv).imp_right ?_
    rintro ⟨j, hj⟩
    cases hj
  | answered hphase hworker hid hfetch =>
    rw [hphase]
    refine (Phase.holds_set hv).imp_right ?_
    rintro ⟨j, hj⟩
    cases hj
    exact .inr ⟨_, hfetch⟩
  | failed hphase hworker =>
    rw [hphase]
    refine (Phase.holds_set hv).imp_right ?_
    rintro ⟨j, hj⟩
    cases hj
  | @store w i out queue closed workers v' hphase hworker =>
    rw [hphase]
    have hstored : (Phase.working (out.set i (some v')) queue closed workers).Holds v ∨
        ∃ j, Worker.idle = .fetched j v := Phase.holds_set hv
    rcases hstored with (hv | hv) | ⟨j, hj⟩
    · rcases List.mem_or_eq_of_mem_set hv with hv | hv
      · exact .inl (.inl hv)
      · cases hv
        exact .inl (.inr ⟨_, List.mem_of_getElem? hworker⟩)
    · exact .inl (.inr hv)
    · cases hj
  | close hphase hclose =>
    rw [hphase]
    exact .inl hv
  | cancel => exact .inl hv
  | finish hphase hidle =>
    rw [hphase]
    exact .inl (.inl hv)

end GarageConsole.Lists
