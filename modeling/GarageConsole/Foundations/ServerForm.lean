import Mathlib.Tactic.Common

/-! # A form over data of a server

A form is filled from what the server said and then edited. Drawn while it is as it was filled, it takes what the server
says by then; drawn while it is edited, it stays. So an untouched form shows the latest data (`follows_next`), and what
is typed into a touched one does not depend on what the server says meanwhile (`edits_kept`).
-/

namespace Foundations

set_option autoImplicit false

variable {S F : Type} [DecidableEq S] [DecidableEq F]

structure ServerForm (S F : Type) where
  /-- What the server said last. -/
  server : S
  /-- What the form was filled from. -/
  base : S
  form : F

namespace ServerForm

variable (toForm : S → F)

inductive Event (S F : Type) where
  | refetched (server : S)
  | edited (edit : F → F)
  | reset (base : S)

/-- The form is as it was filled. -/
def pristine (c : ServerForm S F) : Bool := c.form = toForm c.base

/-- Drawn, an untouched form is filled from the latest data. -/
def drawn (c : ServerForm S F) : ServerForm S F :=
  if c.pristine toForm && c.server ≠ c.base then ⟨c.server, c.server, toForm c.server⟩ else c

def next (c : ServerForm S F) : Event S F → ServerForm S F
  | .refetched server => drawn toForm { c with server }
  | .edited edit => drawn toForm { c with form := edit c.form }
  | .reset base => drawn toForm { c with base, form := toForm base }

def opened (server : S) : ServerForm S F := ⟨server, server, toForm server⟩

variable {toForm}

theorem drawn_of_touched {c : ServerForm S F} (h : c.pristine toForm = false) : drawn toForm c = c := by
  rw [drawn, h, Bool.false_and]
  rfl

theorem drawn_cases (toForm : S → F) (c : ServerForm S F) : drawn toForm c = ⟨c.server, c.server, toForm c.server⟩ ∨
    drawn toForm c = c ∧ (c.pristine toForm = true → c.base = c.server) := by
  unfold drawn
  split_ifs with h
  · exact .inl rfl
  · refine .inr ⟨rfl, fun hpristine => ?_⟩
    rw [hpristine, Bool.true_and, decide_eq_true_eq, not_not] at h
    exact h.symm

/-- An untouched form shows what the server said last. -/
def Follows (toForm : S → F) (c : ServerForm S F) : Prop := c.pristine toForm = true → c.base = c.server

theorem follows_drawn (c : ServerForm S F) : Follows toForm (drawn toForm c) := by
  obtain h | ⟨h, hbase⟩ := drawn_cases toForm c
  · rw [h]
    exact fun _ => rfl
  · rw [h]
    exact hbase

theorem follows_next (c : ServerForm S F) (event : Event S F) : Follows toForm (c.next toForm event) := by
  cases event <;> exact follows_drawn _

/-! ## What is typed -/

/-- The edits of a run in which nothing is reset. -/
def edits : List (Event S F) → Option (List (F → F))
  | [] => some []
  | .refetched _ :: events => edits events
  | .edited edit :: events => (edits events).map (edit :: ·)
  | .reset _ :: _ => none

/-- What each edit leaves differs from what the form was filled with. -/
def StaysTouched (filled : F) : F → List (F → F) → Prop
  | form, [] => form ≠ filled
  | form, edit :: more => form ≠ filled ∧ StaysTouched filled (edit form) more

omit [DecidableEq F] in
theorem StaysTouched.head {filled form : F} {typed : List (F → F)} (h : StaysTouched filled form typed) :
    form ≠ filled := by
  cases typed with
  | nil => exact h
  | cons edit more => exact h.1

theorem refetched_of_touched {c : ServerForm S F} (h : c.form ≠ toForm c.base) (server : S) :
    c.next toForm (.refetched server) = { c with server } :=
  drawn_of_touched (decide_eq_false h)

/-- Whatever the server says while a touched form is edited, the form holds the edits, over the data it was filled
from. -/
theorem edits_kept {typed : List (F → F)} {events : List (Event S F)} (hedits : edits events = some typed) :
    ∀ {c : ServerForm S F}, StaysTouched (toForm c.base) c.form typed →
      (events.foldl (next toForm) c).base = c.base ∧
        (events.foldl (next toForm) c).form = typed.foldl (fun form edit => edit form) c.form := by
  induction events generalizing typed with
  | nil =>
    obtain rfl := Option.some.inj hedits
    exact fun _ => ⟨rfl, rfl⟩
  | cons event events ih =>
    intro c htouched
    cases event with
    | refetched server =>
      rw [List.foldl_cons, refetched_of_touched htouched.head]
      exact ih (c := { c with server }) hedits htouched
    | edited edit =>
      obtain ⟨more, hmore, rfl⟩ := Option.map_eq_some_iff.mp hedits
      have hkept : c.next toForm (.edited edit) = { c with form := edit c.form } :=
        drawn_of_touched (decide_eq_false htouched.2.head)
      rw [List.foldl_cons, hkept]
      exact ih (c := { c with form := edit c.form }) hmore htouched.2
    | reset base => cases hedits

end ServerForm

end Foundations
