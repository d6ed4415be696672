import GarageConsole.Foundations.Calls

/-! # Any number of programs side by side

`Path p log q`: having made the calls of `log`, the program `p` has become `q`. A run that is still under
way is a path, and one that has ended is a path to a returned value. Programs that share a
service are described by one list of their calls in the order in which the service takes them: it is a
possible one when the calls of each program in it are a path of that program (`Interleaved`).
-/

namespace Foundations.Calls

set_option autoImplicit false

variable {ι Req : Type} {Ans : Req → Type} {α β : Type}

inductive Path : Prog Req Ans α → List (Exchange Req Ans) → Prog Req Ans α → Prop where
  | nil (p : Prog Req Ans α) : Path p [] p
  | call {r : Req} {next : Ans r → Prog Req Ans α} {x : Ans r} {log : List (Exchange Req Ans)} {q : Prog Req Ans α} :
      Path (next x) log q → Path (.call r next) (⟨r, x⟩ :: log) q

theorem path_ret {a : α} {log : List (Exchange Req Ans)} {q : Prog Req Ans α} :
    Path (.ret a) log q ↔ log = [] ∧ q = .ret a := by
  constructor
  · rintro ⟨⟩
    exact ⟨rfl, rfl⟩
  · rintro ⟨rfl, rfl⟩
    exact .nil _

theorem path_call {r : Req} {next : Ans r → Prog Req Ans α} {log : List (Exchange Req Ans)} {q : Prog Req Ans α} :
    Path (.call r next) log q ↔
      log = [] ∧ q = .call r next ∨ ∃ x rest, log = ⟨r, x⟩ :: rest ∧ Path (next x) rest q := by
  constructor
  · intro h
    cases h with
    | nil => exact .inl ⟨rfl, rfl⟩
    | call h => exact .inr ⟨_, _, rfl, h⟩
  · rintro (⟨rfl, rfl⟩ | ⟨x, rest, rfl, h⟩)
    · exact .nil _
    · exact .call h

/-! ## Interleavings -/

abbrev Event (ι Req : Type) (Ans : Req → Type) := Exchange (ι × Req) fun r => Ans r.2

variable [DecidableEq ι]

def callOf (i : ι) (e : Event ι Req Ans) : Option (Exchange Req Ans) := if e.1.1 = i then some ⟨e.1.2, e.2⟩ else none

/-- The calls of one of the programs. -/
def callsOf (i : ι) (events : List (Event ι Req Ans)) : List (Exchange Req Ans) := events.filterMap (callOf i)

/-- The programs made the calls of `events` in this order and have become `ends`. -/
def Interleaved (progs : ι → Prog Req Ans α) (events : List (Event ι Req Ans)) (ends : ι → Prog Req Ans α) : Prop :=
  ∀ i, Path (progs i) (callsOf i events) (ends i)

theorem callOf_eq_some {i : ι} {e : Event ι Req Ans} {c : Exchange Req Ans} :
    callOf i e = some c ↔ e = ⟨(i, c.1), c.2⟩ := by
  obtain ⟨⟨j, r⟩, x⟩ := e
  unfold callOf
  constructor
  · intro h
    split_ifs at h with hi
    obtain rfl := Option.some.inj h
    change j = i at hi
    subst hi
    rfl
  · rintro h
    cases h
    exact if_pos rfl

theorem mem_callsOf {i : ι} {events : List (Event ι Req Ans)} {c : Exchange Req Ans} :
    c ∈ callsOf i events ↔ (⟨(i, c.1), c.2⟩ : Event ι Req Ans) ∈ events := by
  rw [callsOf, List.mem_filterMap]
  constructor
  · rintro ⟨e, he, hc⟩
    rwa [callOf_eq_some.mp hc] at he
  · intro h
    exact ⟨_, h, callOf_eq_some.mpr rfl⟩

theorem callsOf_append (i : ι) (l r : List (Event ι Req Ans)) : callsOf i (l ++ r) = callsOf i l ++ callsOf i r :=
  List.filterMap_append

theorem callsOf_cons_self (i : ι) (c : Exchange Req Ans) (l : List (Event ι Req Ans)) :
    callsOf i (⟨(i, c.1), c.2⟩ :: l) = c :: callsOf i l :=
  List.filterMap_cons_some (callOf_eq_some.mpr rfl)

/-- Where a program's calls split, the list of all of them does. -/
theorem split_of_callsOf {i : ι} {c : Exchange Req Ans} {events : List (Event ι Req Ans)}
    {l r : List (Exchange Req Ans)} (h : callsOf i events = l ++ c :: r) :
    ∃ before after, events = before ++ ⟨(i, c.1), c.2⟩ :: after ∧ callsOf i before = l ∧ callsOf i after = r := by
  obtain ⟨before, rest, rfl, hl, hrest⟩ := List.filterMap_eq_append_iff.mp h
  obtain ⟨skipped, e, after, rfl, hskipped, he, hr⟩ := List.filterMap_eq_cons_iff.mp hrest
  rw [callOf_eq_some] at he
  subst he
  refine ⟨before ++ skipped, after, by simp, ?_, hr⟩
  rw [callsOf_append, callsOf, callsOf, hl, List.filterMap_eq_nil_iff.mpr hskipped, List.append_nil]

end Foundations.Calls
