import Mathlib.Data.List.Basic
import Mathlib.Tactic.Common

/-! # Histories

A system that keeps everything that happened: `History allowed h` says that each event of `h`, the latest
first, was allowed after the ones before it. What holds of an event once it holds of all before it holds
of every event (`History.forall_mem`).
-/

namespace Foundations.Histories

set_option autoImplicit false

variable {ε : Type} {allowed : List ε → ε → Prop}

inductive History (allowed : List ε → ε → Prop) : List ε → Prop where
  | nil : History allowed []
  | cons {h : List ε} {e : ε} : History allowed h → allowed h e → History allowed (e :: h)

theorem History.tail {h : List ε} {e : ε} (hist : History allowed (e :: h)) : History allowed h := by
  cases hist with
  | cons hist _ => exact hist

theorem History.head {h : List ε} {e : ε} (hist : History allowed (e :: h)) : allowed h e := by
  cases hist with
  | cons _ hallowed => exact hallowed

theorem History.before {l r : List ε} {e : ε} (hist : History allowed (l ++ e :: r)) :
    History allowed r ∧ allowed r e := by
  induction l with
  | nil => exact ⟨hist.tail, hist.head⟩
  | cons _ l ih => exact ih hist.tail

theorem History.allowed_of_mem {h : List ε} {e : ε} (hist : History allowed h) (hmem : e ∈ h) :
    ∃ l r, h = l ++ e :: r ∧ History allowed r ∧ allowed r e := by
  obtain ⟨l, r, rfl⟩ := List.append_of_mem hmem
  exact ⟨l, r, rfl, hist.before⟩

/-- What follows for an event from the same for the earlier ones holds of all events. -/
theorem History.forall_mem {P : List ε → ε → Prop}
    (hstep : ∀ h e, allowed h e → (∀ e' ∈ h, P h e') → P (e :: h) e)
    (hmono : ∀ h e e', P h e → P (e' :: h) e) {h : List ε} (hist : History allowed h) : ∀ e ∈ h, P h e := by
  induction hist with
  | nil => exact fun e he => absurd he List.not_mem_nil
  | cons hist hallowed ih =>
    intro e he
    rcases List.mem_cons.mp he with rfl | he
    · exact hstep _ _ hallowed ih
    · exact hmono _ _ _ (ih e he)

end Foundations.Histories
