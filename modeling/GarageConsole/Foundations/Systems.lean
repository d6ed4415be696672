import Mathlib.Data.List.Basic
import Mathlib.Tactic.Common

/-! # Transition systems

A system takes steps labelled by actions. `Reachable S ok` are the states reached from an initial one by
steps that all meet the condition `ok`; an invariant is shown for one step and holds in all of them. A
system whose steps are a function can be run on a list of actions.
-/

namespace Foundations.Systems

set_option autoImplicit false

variable {σ ε : Type}

structure System (σ ε : Type) where
  init : σ → Prop
  step : σ → ε → σ → Prop

inductive Reachable (S : System σ ε) (ok : σ → ε → Prop) : σ → Prop where
  | init {s : σ} : S.init s → Reachable S ok s
  | step {s t : σ} {a : ε} : Reachable S ok s → ok s a → S.step s a t → Reachable S ok t

/-- What holds at first and is kept by every step that meets the condition holds in every state reached. -/
theorem Reachable.invariant {S : System σ ε} {ok : σ → ε → Prop} {I : σ → Prop} (hinit : ∀ s, S.init s → I s)
    (hstep : ∀ s a t, I s → ok s a → S.step s a t → I t) {s : σ} (h : Reachable S ok s) : I s := by
  induction h with
  | init hs => exact hinit _ hs
  | step _ hok hs ih => exact hstep _ _ _ ih hok hs

theorem Reachable.mono {S : System σ ε} {ok ok' : σ → ε → Prop} (hok : ∀ s a, ok s a → ok' s a) {s : σ}
    (h : Reachable S ok s) : Reachable S ok' s :=
  h.invariant (fun _ hs => .init hs) fun _ _ _ hr ha hs => .step hr (hok _ _ ha) hs

/-! ## Runs of a step function -/

def run (next : σ → ε → Option σ) (ok : σ → ε → Bool) (s : σ) : List ε → Option σ
  | [] => some s
  | a :: as => if ok s a then (next s a).bind fun t => run next ok t as else none

theorem reachable_of_run {S : System σ ε} {next : σ → ε → Option σ} {ok : σ → ε → Bool}
    (hstep : ∀ s a t, next s a = some t → S.step s a t) {as : List ε} :
    ∀ {s t : σ}, Reachable S (fun s a => ok s a = true) s → run next ok s as = some t →
      Reachable S (fun s a => ok s a = true) t := by
  induction as with
  | nil =>
    intro s t hs hrun
    rw [run, Option.some.injEq] at hrun
    rwa [← hrun]
  | cons a as ih =>
    intro s t hs hrun
    rw [run] at hrun
    split_ifs at hrun with hok
    obtain ⟨u, hnext, hrun⟩ := Option.bind_eq_some_iff.mp hrun
    exact ih (.step hs hok (hstep _ _ _ hnext)) hrun

end Foundations.Systems
