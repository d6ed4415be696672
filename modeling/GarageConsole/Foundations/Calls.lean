import Mathlib.Data.List.Basic
import Mathlib.Data.Nat.Notation
import Mathlib.Tactic.Common

/-! # Programs that call upstream services

A handler that only computes and calls other services is a `Prog`: it either returns, or makes one
call and goes on with the answer. Nothing is said here about what a service answers.

* `Runs p log a`: the program `p` makes exactly the calls of `log`, each getting the answer the log
  records, and returns `a`. A statement about every `Runs` holds for every behaviour of the services.
* `Served svc s log t`: a service with state answers the calls of `log` in order, taking it from `s`
  to `t`. Each call is one atomic step of the service.
* `Shuffle l r m`: `m` is an interleaving of the logs `l` and `r`. Two programs running side by side
  against one service are two `Runs` whose logs are shuffled into one `Served` log.
-/

namespace Foundations.Calls

set_option autoImplicit false

variable {Req : Type} {Ans : Req → Type} {α β σ : Type}

inductive Prog (Req : Type) (Ans : Req → Type) (α : Type) : Type where
  | ret (a : α)
  | call (r : Req) (next : Ans r → Prog Req Ans α)

namespace Prog

def bind : Prog Req Ans α → (α → Prog Req Ans β) → Prog Req Ans β
  | .ret a, f => f a
  | .call r next, f => .call r fun x => (next x).bind f

instance : Monad (Prog Req Ans) where
  pure := .ret
  bind := bind

def send (r : Req) : Prog Req Ans (Ans r) := .call r .ret

@[simp] theorem pure_eq (a : α) : (pure a : Prog Req Ans α) = .ret a := rfl

@[simp] theorem ret_bind (a : α) (f : α → Prog Req Ans β) : (.ret a : Prog Req Ans α) >>= f = f a := rfl

@[simp] theorem call_bind (r : Req) (next : Ans r → Prog Req Ans α) (f : α → Prog Req Ans β) :
    .call r next >>= f = .call r fun x => next x >>= f := rfl

@[simp] theorem send_bind (r : Req) (f : Ans r → Prog Req Ans β) : send r >>= f = .call r f := rfl

end Prog

/-! ## Runs -/

abbrev Exchange (Req : Type) (Ans : Req → Type) := (r : Req) × Ans r

inductive Runs : Prog Req Ans α → List (Exchange Req Ans) → α → Prop where
  | ret (a : α) : Runs (.ret a) [] a
  | call {r : Req} {next : Ans r → Prog Req Ans α} {x : Ans r} {log : List (Exchange Req Ans)} {a : α} :
      Runs (next x) log a → Runs (.call r next) (⟨r, x⟩ :: log) a

@[simp] theorem runs_ret {a b : α} {log : List (Exchange Req Ans)} :
    Runs (.ret a) log b ↔ log = [] ∧ b = a := by
  constructor
  · rintro ⟨⟩
    exact ⟨rfl, rfl⟩
  · rintro ⟨rfl, rfl⟩
    exact .ret _

@[simp] theorem runs_call {r : Req} {next : Ans r → Prog Req Ans α} {log : List (Exchange Req Ans)} {a : α} :
    Runs (.call r next) log a ↔ ∃ x rest, log = ⟨r, x⟩ :: rest ∧ Runs (next x) rest a := by
  constructor
  · rintro ⟨⟩
    exact ⟨_, _, rfl, by assumption⟩
  · rintro ⟨x, rest, rfl, h⟩
    exact .call h

/-- A run of a sequence is a run of its first part followed by a run of the rest. -/
theorem runs_bind {f : α → Prog Req Ans β} {b : β} :
    ∀ {p : Prog Req Ans α} {log : List (Exchange Req Ans)},
      Runs (p >>= f) log b ↔ ∃ l a r, log = l ++ r ∧ Runs p l a ∧ Runs (f a) r b
  | .ret a, log => by
      constructor
      · intro h
        exact ⟨[], a, log, rfl, .ret a, h⟩
      · rintro ⟨l, a', r, rfl, hl, hr⟩
        obtain ⟨rfl, rfl⟩ := runs_ret.mp hl
        exact hr
  | .call r next, log => by
      rw [Prog.call_bind, runs_call]
      constructor
      · rintro ⟨x, rest, rfl, h⟩
        obtain ⟨l, a, r', rfl, hl, hr⟩ := (runs_bind (p := next x)).mp h
        exact ⟨⟨r, x⟩ :: l, a, r', rfl, .call hl, hr⟩
      · rintro ⟨l, a, r', rfl, hl, hr⟩
        obtain ⟨x, rest, rfl, hx⟩ := runs_call.mp hl
        exact ⟨x, rest ++ r', rfl, (runs_bind (p := next x)).mpr ⟨rest, a, r', rfl, hx, hr⟩⟩

/-! ## Services -/

abbrev Service (σ Req : Type) (Ans : Req → Type) := σ → (r : Req) → Ans r → σ → Prop

inductive Served (svc : Service σ Req Ans) : σ → List (Exchange Req Ans) → σ → Prop where
  | nil (s : σ) : Served svc s [] s
  | cons {s t u : σ} {r : Req} {x : Ans r} {log : List (Exchange Req Ans)} :
      svc s r x t → Served svc t log u → Served svc s (⟨r, x⟩ :: log) u

@[simp] theorem served_nil {svc : Service σ Req Ans} {s t : σ} : Served svc s [] t ↔ t = s := by
  constructor
  · rintro ⟨⟩
    rfl
  · rintro rfl
    exact .nil _

@[simp] theorem served_cons {svc : Service σ Req Ans} {s u : σ} {r : Req} {x : Ans r}
    {log : List (Exchange Req Ans)} :
    Served svc s (⟨r, x⟩ :: log) u ↔ ∃ t, svc s r x t ∧ Served svc t log u := by
  constructor
  · rintro ⟨⟩
    exact ⟨_, by assumption, by assumption⟩
  · rintro ⟨t, h, hs⟩
    exact .cons h hs

theorem served_cons_exchange {svc : Service σ Req Ans} {s u : σ} {e : Exchange Req Ans}
    {log : List (Exchange Req Ans)} : Served svc s (e :: log) u ↔ ∃ t, svc s e.1 e.2 t ∧ Served svc t log u :=
  served_cons

theorem served_append {svc : Service σ Req Ans} {l r : List (Exchange Req Ans)} {s u : σ} :
    Served svc s (l ++ r) u ↔ ∃ t, Served svc s l t ∧ Served svc t r u := by
  induction l generalizing s with
  | nil => simp
  | cons e l ih =>
    obtain ⟨q, x⟩ := e
    simp only [List.cons_append, served_cons, ih]
    constructor
    · rintro ⟨t, h, v, hl, hr⟩
      exact ⟨v, ⟨t, h, hl⟩, hr⟩
    · rintro ⟨v, ⟨t, h, hl⟩, hr⟩
      exact ⟨t, h, v, hl, hr⟩

/-! ## Execution -/

/-- The run of a program whose calls are answered by a function of a state. -/
def Prog.exec (env : σ → (r : Req) → Ans r × σ) : Prog Req Ans α → σ → α × σ
  | .ret a, s => (a, s)
  | .call r next, s => (next (env s r).1).exec env (env s r).2

section Exec

variable {env : σ → (r : Req) → Ans r × σ}

@[simp] theorem exec_ret (a : α) (s : σ) : (.ret a : Prog Req Ans α).exec env s = (a, s) := rfl

@[simp] theorem exec_call (r : Req) (next : Ans r → Prog Req Ans α) (s : σ) :
    (Prog.call r next).exec env s = (next (env s r).1).exec env (env s r).2 := rfl

theorem exec_bind (f : α → Prog Req Ans β) (s : σ) : ∀ p : Prog Req Ans α,
    (p >>= f).exec env s = (f (p.exec env s).1).exec env (p.exec env s).2
  | .ret _ => rfl
  | .call r next => by
      rw [Prog.call_bind, exec_call, exec_call]
      exact exec_bind f (env s r).2 (next (env s r).1)

end Exec

/-! ## Requests of two kinds -/

section TwoKinds

variable {Req' : Type} {Ans' : Req' → Type}

/-- A program of the second kind of requests among those of both. -/
def Prog.inr : Prog Req' Ans' α → Prog (Req ⊕ Req') (Sum.elim Ans Ans') α
  | .ret a => .ret a
  | .call r next => .call (.inr r) fun x => (next x).inr

def rightExchange (e : Exchange Req' Ans') : Exchange (Req ⊕ Req') (Sum.elim Ans Ans') := ⟨.inr e.1, e.2⟩

/-- The exchanges of the second kind. -/
def rights : List (Exchange (Req ⊕ Req') (Sum.elim Ans Ans')) → List (Exchange Req' Ans')
  | [] => []
  | ⟨.inl _, _⟩ :: log => rights log
  | ⟨.inr r, x⟩ :: log => ⟨r, x⟩ :: rights log

theorem rights_append (l l' : List (Exchange (Req ⊕ Req') (Sum.elim Ans Ans'))) :
    rights (l ++ l') = rights l ++ rights l' := by
  induction l with
  | nil => rfl
  | cons e l ih =>
    obtain ⟨r | r, x⟩ := e
    · exact ih
    · exact congrArg (⟨r, x⟩ :: ·) ih

theorem rights_map_right (l : List (Exchange Req' Ans')) :
    rights (l.map rightExchange : List (Exchange (Req ⊕ Req') (Sum.elim Ans Ans'))) = l := by
  induction l with
  | nil => rfl
  | cons e l ih => exact congrArg (e :: ·) ih

theorem runs_inr {a : α} : ∀ {p : Prog Req' Ans' α} {log : List (Exchange (Req ⊕ Req') (Sum.elim Ans Ans'))},
    Runs p.inr log a ↔ ∃ l, log = l.map rightExchange ∧ Runs p l a
  | .ret b, log => by
      rw [Prog.inr, runs_ret]
      constructor
      · rintro ⟨rfl, rfl⟩
        exact ⟨[], rfl, .ret _⟩
      · rintro ⟨l, rfl, h⟩
        obtain ⟨rfl, rfl⟩ := runs_ret.mp h
        exact ⟨rfl, rfl⟩
  | .call r next, log => by
      rw [Prog.inr, runs_call]
      constructor
      · rintro ⟨x, rest, rfl, h⟩
        obtain ⟨l, rfl, hl⟩ := (runs_inr (p := next x)).mp h
        exact ⟨⟨r, x⟩ :: l, rfl, .call hl⟩
      · rintro ⟨l, rfl, h⟩
        obtain ⟨x, l', rfl, hl⟩ := runs_call.mp h
        exact ⟨x, l'.map rightExchange, rfl, (runs_inr (p := next x)).mpr ⟨l', rfl, hl⟩⟩

def Service.right (svc : Service σ (Req ⊕ Req') (Sum.elim Ans Ans')) : Service σ Req' Ans' :=
  fun s r x t => svc s (.inr r) x t

theorem served_map_right {svc : Service σ (Req ⊕ Req') (Sum.elim Ans Ans')} {l : List (Exchange Req' Ans')} :
    ∀ {s t : σ}, Served svc s (l.map rightExchange) t ↔ Served svc.right s l t := by
  induction l with
  | nil => simp
  | cons e l ih =>
    intro s t
    rw [List.map_cons, served_cons_exchange, served_cons_exchange]
    exact exists_congr fun u => and_congr_right fun _ => ih

end TwoKinds

/-- A service that answers every request lets every program run to its end. -/
theorem exists_served_run {svc : Service σ Req Ans} (hsvc : ∀ s r, ∃ x t, svc s r x t) :
    ∀ (p : Prog Req Ans α) (s : σ), ∃ log a t, Runs p log a ∧ Served svc s log t
  | .ret a, s => ⟨[], a, s, .ret a, .nil s⟩
  | .call r next, s => by
      obtain ⟨x, t, hx⟩ := hsvc s r
      obtain ⟨log, a, u, hrun, hserved⟩ := exists_served_run hsvc (next x) t
      exact ⟨⟨r, x⟩ :: log, a, u, .call hrun, .cons hx hserved⟩

/-! ## Two programs side by side -/

inductive Shuffle {ε : Type} : List ε → List ε → List ε → Prop where
  | nil : Shuffle [] [] []
  | left {e : ε} {l r m : List ε} : Shuffle l r m → Shuffle (e :: l) r (e :: m)
  | right {e : ε} {l r m : List ε} : Shuffle l r m → Shuffle l (e :: r) (e :: m)

theorem Shuffle.mem_iff {ε : Type} {l r m : List ε} (h : Shuffle l r m) {e : ε} :
    e ∈ m ↔ e ∈ l ∨ e ∈ r := by
  induction h with
  | nil => simp
  | left _ ih => simp [ih, or_assoc]
  | right _ ih =>
    simp only [List.mem_cons, ih]
    exact or_left_comm

theorem Shuffle.append {ε : Type} : ∀ (l r : List ε), Shuffle l r (l ++ r)
  | [], [] => .nil
  | [], _ :: r => .right (Shuffle.append [] r)
  | _ :: l, r => .left (Shuffle.append l r)

/-- What comes before an element of the left log comes from the right one. -/
theorem Shuffle.split_left {ε : Type} {e : ε} {l : List ε} :
    ∀ {r m : List ε}, Shuffle (e :: l) r m →
      ∃ before after rest, m = before ++ e :: after ∧ r = before ++ rest ∧ Shuffle l rest after
  | r, _, .left h => ⟨[], _, r, rfl, rfl, h⟩
  | _, _, .right (e := e') h => by
      obtain ⟨before, after, rest, rfl, rfl, hs⟩ := h.split_left
      exact ⟨e' :: before, after, rest, rfl, rfl, hs⟩

end Foundations.Calls
