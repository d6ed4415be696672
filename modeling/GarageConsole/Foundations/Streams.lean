import Mathlib.Data.List.Basic
import Mathlib.Data.Nat.Notation
import Mathlib.Data.Prod.Lex
import Mathlib.Tactic.Common

/-! # Readers of streams

A reader fills at most `n` places at a call, as far as it likes, and may say with it how the stream ended.
`Stream` is what a reader of a finite stream promises, whatever pieces it hands out; `Gets` is what a caller of
it sees. Readers are put together as the standard library does it: limited to a number of items, one after the
other, or over items that are already there.
-/

namespace Foundations.Streams

set_option autoImplicit false

variable {β σ σ₁ σ₂ : Type}

/-- How a stream ends. -/
inductive Ending where
  | eof
  | failed (message : String)
  deriving DecidableEq, Repr

/-- What one call gives. -/
structure Reading (β : Type) where
  chunk : List β
  err : Option Ending
  deriving DecidableEq, Repr

/-- One call with room for `n` items: what it gives, and the reader's next state. -/
abbrev Reader (β σ : Type) := σ → ℕ → Reading β × σ

/-! ## Callers -/

/-- The calls with these sizes, one after the other. -/
def reads (r : Reader β σ) : σ → List ℕ → List (Reading β) × σ
  | s, [] => ([], s)
  | s, n :: sizes => ((r s n).1 :: (reads r (r s n).2 sizes).1, (reads r (r s n).2 sizes).2)

def received (got : List (Reading β)) : List β := got.flatMap Reading.chunk

/-- Calls until one says how the stream ended. The size of a call may depend on what the ones before gave. -/
def drain (r : Reader β σ) (size : List (Reading β) → ℕ) : ℕ → List (Reading β) → σ →
    Option (List (Reading β) × Ending × σ)
  | 0, _, _ => none
  | fuel + 1, got, s =>
    match (r s (size got)).1.err with
    | some e => some (got ++ [(r s (size got)).1], e, (r s (size got)).2)
    | none => drain r size fuel (got ++ [(r s (size got)).1]) (r s (size got)).2

theorem received_concat (got : List (Reading β)) (a : Reading β) : received (got ++ [a]) = received got ++ a.chunk := by
  rw [received, List.flatMap_append, List.flatMap_singleton, received]

theorem reads_concat (r : Reader β σ) (s : σ) (sizes : List ℕ) (n : ℕ) : reads r s (sizes ++ [n]) =
    ((reads r s sizes).1 ++ [(r (reads r s sizes).2 n).1], (r (reads r s sizes).2 n).2) := by
  induction sizes generalizing s with
  | nil => rfl
  | cons m sizes ih =>
    rw [List.cons_append, reads, ih]
    rfl

/-- The states that calls lead to. -/
def Reached (r : Reader β σ) (s t : σ) : Prop := ∃ sizes, (reads r s sizes).2 = t

theorem Reached.refl (r : Reader β σ) (s : σ) : Reached r s s := ⟨[], rfl⟩

theorem Reached.read {r : Reader β σ} {s t : σ} (h : Reached r s t) (n : ℕ) : Reached r s (r t n).2 := by
  obtain ⟨sizes, rfl⟩ := h
  exact ⟨sizes ++ [n], by rw [reads_concat]⟩

theorem Reached.reads {r : Reader β σ} {s t : σ} (h : Reached r s t) (sizes : List ℕ) :
    Reached r s (reads r t sizes).2 := by
  induction sizes generalizing t with
  | nil => exact h
  | cons n sizes ih => exact ih (h.read n)

/-- The rule for a caller: what is preserved by a call that goes on, and implied by the last one. -/
theorem drain_rule {r : Reader β σ} (size : List (Reading β) → ℕ) (Inv : List (Reading β) → σ → Prop)
    (Post : List (Reading β) → Ending → σ → Prop) (measure : σ → ℕ × ℕ)
    (hlast : ∀ got s e, Inv got s → (r s (size got)).1.err = some e →
      Post (got ++ [(r s (size got)).1]) e (r s (size got)).2)
    (hmore : ∀ got s, Inv got s → (r s (size got)).1.err = none →
      Inv (got ++ [(r s (size got)).1]) (r s (size got)).2 ∧
        Prod.Lex (· < ·) (· < ·) (measure (r s (size got)).2) (measure s))
    (got : List (Reading β)) (s : σ) (h : Inv got s) :
    ∃ enough, ∀ fuel, enough ≤ fuel → ∃ got' e s', drain r size fuel got s = some (got', e, s') ∧ Post got' e s' := by
  have hwf : WellFounded fun a b : σ => Prod.Lex (· < ·) (· < ·) (measure a) (measure b) :=
    InvImage.wf measure (Nat.lt_wfRel.wf.prod_lex Nat.lt_wfRel.wf)
  induction s using hwf.induction generalizing got with
  | _ s ih =>
    cases herr : (r s (size got)).1.err with
    | some e =>
      refine ⟨1, fun fuel hfuel => ?_⟩
      obtain ⟨fuel, rfl⟩ := Nat.exists_eq_add_of_le' hfuel
      exact ⟨_, e, _, by rw [drain, herr], hlast got s e h herr⟩
    | none =>
      obtain ⟨hinv, hless⟩ := hmore got s h herr
      obtain ⟨enough, henough⟩ := ih _ hless _ hinv
      refine ⟨enough + 1, fun fuel hfuel => ?_⟩
      obtain ⟨fuel, rfl⟩ := Nat.exists_eq_add_of_le' (Nat.le_of_add_left_le hfuel)
      obtain ⟨got', e, s', hdrain, hpost⟩ := henough fuel (Nat.le_of_add_le_add_right hfuel)
      exact ⟨got', e, s', by rw [drain, herr]; exact hdrain, hpost⟩

/-! ## Streams -/

/-- What one call keeps to, where `rest` is what is left: the items it gives come from the front of it, an error
comes after the last one, and only so many calls in a row give nothing. -/
structure Lawful (rest : σ → List β) (ending : σ → Ending) (idle : σ → ℕ) (s : σ) (n : ℕ) (out : Reading β × σ) :
    Prop where
  chunk_le : out.1.chunk.length ≤ n
  rest_eq : out.1.chunk ++ rest out.2 = rest s
  ending_eq : ending out.2 = ending s
  err_eq : ∀ e, out.1.err = some e → e = ending s ∧ rest out.2 = []
  idle_lt : 0 < n → out.1.chunk = [] → out.1.err = none → idle out.2 < idle s

/-- A reader of a finite stream: what is left of it and how it ends depends on the state alone. -/
structure Stream (r : Reader β σ) where
  rest : σ → List β
  ending : σ → Ending
  idle : σ → ℕ
  lawful : ∀ s n, Lawful rest ending idle s n (r s n)

/-- What a caller gets, whatever sizes it asks for: these items in this order and then this ending, and no error
before the last item. -/
structure Gets (r : Reader β σ) (s : σ) (data : List β) (ending : Ending) : Prop where
  received_prefix : ∀ sizes, received (reads r s sizes).1 <+: data
  err_at_end : ∀ sizes, ∀ a ∈ (reads r s sizes).1, ∀ e, a.err = some e →
    e = ending ∧ received (reads r s sizes).1 = data
  ends : ∀ size : List (Reading β) → ℕ, (∀ got, 0 < size got) → ∃ enough, ∀ fuel, enough ≤ fuel →
    ∃ got s', drain r size fuel [] s = some (got, ending, s') ∧ received got = data

theorem Gets.unique {r : Reader β σ} {s : σ} {data data' : List β} {e e' : Ending} (h : Gets r s data e)
    (h' : Gets r s data' e') : data = data' ∧ e = e' := by
  obtain ⟨enough, henough⟩ := h.ends (fun _ => 1) fun _ => Nat.one_pos
  obtain ⟨enough', henough'⟩ := h'.ends (fun _ => 1) fun _ => Nat.one_pos
  obtain ⟨got, _, hdrain, hdata⟩ := henough _ (Nat.le_max_left enough enough')
  obtain ⟨got', _, hdrain', hdata'⟩ := henough' _ (Nat.le_max_right enough enough')
  rw [hdrain] at hdrain'
  injection hdrain' with heq
  rw [Prod.mk.injEq, Prod.mk.injEq] at heq
  obtain ⟨rfl, rfl, -⟩ := heq
  exact ⟨hdata.symm.trans hdata', rfl⟩

/-! ## The same reader with its state kept elsewhere -/

section Kept

variable {r : Reader β σ₁} {r' : Reader β σ₂} {f : σ₁ → σ₂} (h : ∀ s n, r' (f s) n = ((r s n).1, f (r s n).2))

include h

theorem reads_kept (s : σ₁) (sizes : List ℕ) : reads r' (f s) sizes = ((reads r s sizes).1, f (reads r s sizes).2) := by
  induction sizes generalizing s with
  | nil => rfl
  | cons n sizes ih => rw [reads, h, ih, reads]

theorem drain_kept (size : List (Reading β) → ℕ) (fuel : ℕ) (got : List (Reading β)) (s : σ₁) :
    drain r' size fuel got (f s) = (drain r size fuel got s).map fun out => (out.1, out.2.1, f out.2.2) := by
  induction fuel generalizing got s with
  | zero => rfl
  | succ fuel ih =>
    rw [drain, drain, h]
    dsimp only
    cases (r s (size got)).1.err with
    | some e => rfl
    | none => exact ih _ _

theorem Gets.kept {s : σ₁} {data : List β} {ending : Ending} (hgets : Gets r s data ending) :
    Gets r' (f s) data ending where
  received_prefix sizes := by
    rw [reads_kept h]
    exact hgets.received_prefix sizes
  err_at_end sizes := by
    rw [reads_kept h]
    exact hgets.err_at_end sizes
  ends size hsize := by
    obtain ⟨enough, henough⟩ := hgets.ends size hsize
    refine ⟨enough, fun fuel hfuel => ?_⟩
    obtain ⟨got, s', hdrain, hgot⟩ := henough fuel hfuel
    exact ⟨got, f s', by rw [drain_kept h, hdrain]; rfl, hgot⟩

end Kept

namespace Stream

variable {r : Reader β σ} (stream : Stream r)

/-- How much is left to do: items first, then calls that may give none. -/
def measure (s : σ) : ℕ × ℕ := ((stream.rest s).length, stream.idle s)

theorem measure_read {s : σ} {n : ℕ} (hn : 0 < n) (herr : (r s n).1.err = none) :
    Prod.Lex (· < ·) (· < ·) (stream.measure (r s n).2) (stream.measure s) := by
  have hrest := congrArg List.length ((stream.lawful s n).rest_eq)
  rw [List.length_append] at hrest
  by_cases hempty : (r s n).1.chunk = []
  · rw [hempty, List.length_nil, Nat.zero_add] at hrest
    rw [measure, measure, hrest]
    exact Prod.Lex.right _ ((stream.lawful s n).idle_lt hn hempty herr)
  · have hpos := List.length_pos_iff.mpr hempty
    exact Prod.Lex.left _ _ (by omega)

theorem received_reads (s : σ) (sizes : List ℕ) :
    received (reads r s sizes).1 ++ stream.rest (reads r s sizes).2 = stream.rest s := by
  induction sizes generalizing s with
  | nil => rfl
  | cons n sizes ih =>
    rw [reads, received, List.flatMap_cons, List.append_assoc]
    exact (congrArg _ (ih _)).trans ((stream.lawful s n).rest_eq)

theorem err_reads (s : σ) (sizes : List ℕ) (a : Reading β) (ha : a ∈ (reads r s sizes).1) (e : Ending)
    (herr : a.err = some e) : e = stream.ending s ∧ stream.rest (reads r s sizes).2 = [] := by
  induction sizes generalizing s with
  | nil => cases ha
  | cons n sizes ih =>
    rcases List.mem_cons.mp ha with rfl | ha
    · obtain ⟨he, hrest⟩ := (stream.lawful s n).err_eq e herr
      have hmore := stream.received_reads (r s n).2 sizes
      rw [hrest] at hmore
      exact ⟨he, (List.append_eq_nil_iff.mp hmore).2⟩
    · obtain ⟨he, hrest⟩ := ih _ ha
      exact ⟨he.trans ((stream.lawful s n).ending_eq), hrest⟩

/-- Every caller of a stream gets what the state says is left of it. -/
theorem gets (s : σ) : Gets r s (stream.rest s) (stream.ending s) where
  received_prefix sizes := ⟨_, stream.received_reads s sizes⟩
  err_at_end sizes a ha e herr := by
    obtain ⟨he, hrest⟩ := stream.err_reads s sizes a ha e herr
    have hall := stream.received_reads s sizes
    rw [hrest, List.append_nil] at hall
    exact ⟨he, hall⟩
  ends size hsize := by
    have hrule := drain_rule (r := r) size (fun got s' => received got ++ stream.rest s' = stream.rest s ∧
        stream.ending s' = stream.ending s)
      (fun got e _ => e = stream.ending s ∧ received got = stream.rest s) stream.measure
      (fun got s' e hinv herr => by
        obtain ⟨he, hrest⟩ := (stream.lawful _ _).err_eq e herr
        have hread := (stream.lawful s' (size got)).rest_eq
        rw [hrest, List.append_nil] at hread
        exact ⟨he.trans hinv.2, by rw [received_concat, hread, hinv.1]⟩)
      (fun got s' hinv herr => by
        refine ⟨⟨?_, ((stream.lawful _ _).ending_eq).trans hinv.2⟩, stream.measure_read (hsize got) herr⟩
        rw [received_concat, List.append_assoc, (stream.lawful _ _).rest_eq, hinv.1])
      [] s ⟨rfl, rfl⟩
    obtain ⟨enough, henough⟩ := hrule
    refine ⟨enough, fun fuel hfuel => ?_⟩
    obtain ⟨got, e, s', hdrain, rfl, hgot⟩ := henough fuel hfuel
    exact ⟨got, s', hdrain, hgot⟩

end Stream

/-! ## Items that are there already, one reader after the other -/

/-- `bytes.Reader` -/
def listReader : Reader β (List β) := fun left n =>
  match left with
  | [] => (⟨[], some .eof⟩, [])
  | _ => (⟨left.take n, none⟩, left.drop n)

/-- Which of two readers is next. -/
inductive Turn where
  | first
  | second
  | done
  deriving DecidableEq, Repr

structure Multi (σ₁ σ₂ : Type) where
  turn : Turn
  first : σ₁
  second : σ₂

section Multi

variable (r₁ : Reader β σ₁) (r₂ : Reader β σ₂)

def readSecond (s : Multi σ₁ σ₂) (n : ℕ) : Reading β × Multi σ₁ σ₂ :=
  ((r₂ s.second n).1,
    { s with turn := if (r₂ s.second n).1.err = some .eof then .done else .second, second := (r₂ s.second n).2 })

/-- `io.MultiReader` of two: the end of the first one is kept back. -/
def multiReader : Reader β (Multi σ₁ σ₂) := fun s n =>
  match s.turn with
  | .first =>
    if (r₁ s.first n).1.err = some .eof then
      if (r₁ s.first n).1.chunk = [] then readSecond r₂ { s with first := (r₁ s.first n).2 } n
      else (⟨(r₁ s.first n).1.chunk, none⟩, { s with turn := .second, first := (r₁ s.first n).2 })
    else ((r₁ s.first n).1, { s with first := (r₁ s.first n).2 })
  | .second => readSecond r₂ s n
  | .done => (⟨[], some .eof⟩, s)

end Multi

theorem reached_second_read (r₁ : Reader β σ₁) {r₂ : Reader β σ₂} {s : σ₂} {t : Multi σ₁ σ₂} (h : Reached r₂ s t.second)
    (n : ℕ) : Reached r₂ s (multiReader r₁ r₂ t n).2.second := by
  rw [multiReader]
  cases t.turn with
  | first =>
    dsimp only
    split_ifs with _ hchunk
    · exact h.read n
    · exact h
    · exact h
  | second => exact h.read n
  | done => exact h

/-- The second of two readers is only ever called by the two. -/
theorem reached_second (r₁ : Reader β σ₁) {r₂ : Reader β σ₂} {s : σ₂} {t : Multi σ₁ σ₂} (h : Reached r₂ s t.second)
    (sizes : List ℕ) : Reached r₂ s (reads (multiReader r₁ r₂) t sizes).2.second := by
  induction sizes generalizing t with
  | nil => exact h
  | cons n sizes ih => exact ih (reached_second_read r₁ h n)

def listStream : Stream (listReader : Reader β (List β)) where
  rest left := left
  ending _ := .eof
  idle _ := 0
  lawful left n := by
    cases left with
    | nil =>
      exact ⟨Nat.zero_le n, rfl, rfl, fun e herr => ⟨(Option.some.inj herr).symm, rfl⟩, fun _ _ herr => nomatch herr⟩
    | cons x left =>
      refine ⟨List.length_take_le _ _, List.take_append_drop _ _, rfl, fun e herr => (nomatch herr), ?_⟩
      intro hn hchunk _
      obtain ⟨n, rfl⟩ := Nat.exists_eq_add_of_lt hn
      cases hchunk

namespace Multi

variable {r₁ : Reader β σ₁} {r₂ : Reader β σ₂} (stream₁ : Stream r₁) (stream₂ : Stream r₂)

def rest (s : Multi σ₁ σ₂) : List β :=
  match s.turn with
  | .first => stream₁.rest s.first ++ stream₂.rest s.second
  | .second => stream₂.rest s.second
  | .done => []

def ending (s : Multi σ₁ σ₂) : Ending :=
  match s.turn with
  | .done => .eof
  | _ => stream₂.ending s.second

def idle (s : Multi σ₁ σ₂) : ℕ :=
  match s.turn with
  | .first => stream₁.idle s.first + stream₂.idle s.second
  | .second => stream₂.idle s.second
  | .done => 0

theorem lawful_readSecond (s : Multi σ₁ σ₂) (first : σ₁) (n : ℕ)
    (hrest : s.rest stream₁ stream₂ = stream₂.rest s.second)
    (hending : s.ending stream₂ = stream₂.ending s.second)
    (hidle : stream₂.idle s.second ≤ s.idle stream₁ stream₂) :
    Lawful (rest stream₁ stream₂) (ending stream₂) (idle stream₁ stream₂) s n
      (readSecond r₂ { s with first := first } n) := by
  have h := stream₂.lawful s.second n
  by_cases heof : (r₂ s.second n).1.err = some .eof
  · obtain ⟨he, hnil⟩ := h.err_eq _ heof
    have hchunk := h.rest_eq
    rw [hnil, List.append_nil] at hchunk
    refine ⟨h.chunk_le, ?_, ?_, fun e herr => ⟨?_, ?_⟩, fun _ _ herr => ?_⟩
    · rw [readSecond, if_pos heof, hrest]
      exact (List.append_nil _).trans hchunk
    · rw [readSecond, if_pos heof, hending]
      exact he
    · rw [hending]
      exact (h.err_eq e herr).1
    · rw [readSecond, if_pos heof]
      rfl
    · cases heof.symm.trans herr
  · refine ⟨h.chunk_le, ?_, ?_, fun e herr => ⟨?_, ?_⟩, fun hn hchunk herr => ?_⟩
    · rw [readSecond, if_neg heof, hrest]
      exact h.rest_eq
    · rw [readSecond, if_neg heof, hending]
      exact h.ending_eq
    · rw [hending]
      exact (h.err_eq e herr).1
    · rw [readSecond, if_neg heof]
      exact (h.err_eq e herr).2
    · rw [readSecond, if_neg heof]
      exact Nat.lt_of_lt_of_le (h.idle_lt hn hchunk herr) hidle

/-- Two streams of which the first one ends well are one stream. -/
def stream (heof : ∀ s, stream₁.ending s = .eof) : Stream (multiReader r₁ r₂) where
  rest := rest stream₁ stream₂
  ending := ending stream₂
  idle := idle stream₁ stream₂
  lawful s n := by
    have h := stream₁.lawful s.first n
    rw [multiReader]
    cases hturn : s.turn with
    | done =>
      have hnil : s.rest stream₁ stream₂ = [] := by rw [rest, hturn]
      have heq : s.ending stream₂ = .eof := by rw [ending, hturn]
      refine ⟨Nat.zero_le n, rfl, rfl, fun e herr => ?_, fun _ _ herr => (nomatch herr)⟩
      exact ⟨(Option.some.inj herr).symm.trans heq.symm, hnil⟩
    | second =>
      exact lawful_readSecond stream₁ stream₂ s s.first n (by rw [rest, hturn]) (by rw [ending, hturn])
        (by rw [idle, hturn])
    | first =>
      have hrest : s.rest stream₁ stream₂ = stream₁.rest s.first ++ stream₂.rest s.second := by rw [rest, hturn]
      have hending : s.ending stream₂ = stream₂.ending s.second := by rw [ending, hturn]
      have hidle : s.idle stream₁ stream₂ = stream₁.idle s.first + stream₂.idle s.second := by rw [idle, hturn]
      dsimp only
      split_ifs with herr hchunk
      · -- the first one has nothing left, and the call goes on with the second one
        have hnone := h.rest_eq
        rw [hchunk, (h.err_eq _ herr).2] at hnone
        exact lawful_readSecond stream₁ stream₂ s _ n (by rw [hrest, ← hnone]; rfl) hending
          (hidle ▸ Nat.le_add_left _ _)
      · have hall := h.rest_eq
        rw [(h.err_eq _ herr).2, List.append_nil] at hall
        refine ⟨h.chunk_le, ?_, hending.symm, fun e he => (nomatch he), fun _ hnil => absurd hnil hchunk⟩
        rw [hrest, ← hall]
        rfl
      · have hnone : (r₁ s.first n).1.err = none := by
          cases he : (r₁ s.first n).1.err with
          | none => rfl
          | some e =>
            rw [he, (h.err_eq e he).1, heof] at herr
            exact absurd rfl herr
        refine ⟨h.chunk_le, ?_, ?_, fun e he => ?_, fun hn hchunk _ => ?_⟩
        · rw [hrest, ← h.rest_eq, List.append_assoc]
          rfl
        · rw [hending]
          rfl
        · cases hnone.symm.trans he
        · rw [hidle]
          exact Nat.add_lt_add_right (h.idle_lt hn hchunk hnone) _

end Multi

/-! ## Pieces as they come, and none -/

/-- A reader of nothing. -/
def emptyReader : Reader β Unit := fun _ _ => (⟨[], some .eof⟩, ())

def emptyStream : Stream (emptyReader : Reader β Unit) where
  rest _ := []
  ending _ := .eof
  idle _ := 0
  lawful _ n :=
    ⟨Nat.zero_le n, rfl, rfl, fun _ herr => ⟨(Option.some.inj herr).symm, rfl⟩, fun _ _ herr => nomatch herr⟩

/-- A reader that hands out these pieces, empty ones too, and then ends so. -/
def pieceReader : Reader β (List (List β) × Ending) := fun s n =>
  match s.1 with
  | [] => (⟨[], some s.2⟩, s)
  | piece :: pieces =>
    (⟨piece.take n, none⟩, (if piece.drop n = [] then pieces else piece.drop n :: pieces, s.2))

def pieceStream : Stream (pieceReader : Reader β (List (List β) × Ending)) where
  rest s := s.1.flatten
  ending s := s.2
  idle s := s.1.length
  lawful := fun (pieces, ending) n => by
    cases pieces with
    | nil =>
      exact ⟨Nat.zero_le n, rfl, rfl, fun e herr => ⟨(Option.some.inj herr).symm, rfl⟩, fun _ _ herr => nomatch herr⟩
    | cons piece pieces =>
      refine ⟨List.length_take_le _ _, ?_, rfl, fun e herr => (nomatch herr), fun hn hchunk _ => ?_⟩
      · dsimp only [pieceReader]
        split_ifs with hdrop
        · rw [List.flatten_cons, List.take_of_length_le (List.drop_eq_nil_iff.mp hdrop)]
        · rw [List.flatten_cons, List.flatten_cons, ← List.append_assoc, List.take_append_drop]
      · have hpiece : piece = [] := (List.take_eq_nil_iff.mp hchunk).resolve_left (Nat.ne_of_gt hn)
        dsimp only [pieceReader]
        rw [hpiece, List.drop_nil, if_pos rfl]
        exact Nat.lt_succ_self _

/-! ## A bounded number of items -/

/-- `io.LimitReader` -/
def limitReader (r : Reader β σ) : Reader β (ℕ × σ) := fun s n =>
  if s.1 = 0 then (⟨[], some .eof⟩, s)
  else ((r s.2 (min n s.1)).1, (s.1 - (r s.2 (min n s.1)).1.chunk.length, (r s.2 (min n s.1)).2))

def Ending.message : Ending → Option String
  | .eof => none
  | .failed message => some message

/-- `io.ReadAll`, where `room` is what the buffer has left beyond one place when it holds that many. -/
def readAll (r : Reader β σ) (room : ℕ → ℕ) (fuel : ℕ) (s : σ) : Option (List β × Option String × σ) :=
  (drain r (fun got => room (received got).length + 1) fuel [] s).map fun out =>
    (received out.1, out.2.1.message, out.2.2)

/-- What a limited reader has taken from a stream so far. -/
structure Taken {r : Reader β σ} (stream : Stream r) (s : σ) (limit : ℕ) (data : List β) (t : ℕ × σ) : Prop where
  reached : Reached r s t.2
  rest_eq : data ++ stream.rest t.2 = stream.rest s
  ending_eq : stream.ending t.2 = stream.ending s
  length_eq : data.length + t.1 = limit

theorem Taken.data_eq {r : Reader β σ} {stream : Stream r} {s : σ} {limit : ℕ} {data : List β} {t : ℕ × σ}
    (h : Taken stream s limit data t) (hend : data.length = limit ∨ stream.rest t.2 = []) :
    data = (stream.rest s).take limit := by
  rw [← h.rest_eq]
  rcases hend with hlength | hrest
  · rw [← hlength, List.take_left]
  · have hlength := h.length_eq
    rw [hrest, List.append_nil, List.take_of_length_le (by omega)]

namespace Stream

variable {r : Reader β σ} (stream : Stream r)

theorem taken_start (s : σ) (limit : ℕ) : Taken stream s limit [] (limit, s) where
  reached := .refl r s
  rest_eq := rfl
  ending_eq := rfl
  length_eq := Nat.zero_add limit

/-- One more call on a limited reader. -/
theorem taken_read {s : σ} {limit : ℕ} {data : List β} {t : ℕ × σ} (h : Taken stream s limit data t) (n : ℕ) :
    Taken stream s limit (data ++ (limitReader r t n).1.chunk) (limitReader r t n).2 := by
  rw [limitReader]
  split_ifs with hzero
  · rw [List.append_nil]
    exact h
  · have hcall := stream.lawful t.2 (min n t.1)
    refine ⟨h.reached.read _, ?_, hcall.ending_eq.trans h.ending_eq, ?_⟩
    · rw [List.append_assoc, hcall.rest_eq, h.rest_eq]
    · have hle := hcall.chunk_le.trans (Nat.min_le_right n t.1)
      have hlength := h.length_eq
      rw [List.length_append]
      dsimp only
      omega

/-- The items up to a limit, and what is left for the next reader; they end where the limit is or where the stream
ends. -/
theorem readAll_limit (room : ℕ → ℕ) (limit : ℕ) (s : σ) : ∃ enough, ∀ fuel, enough ≤ fuel → ∃ data err t,
    readAll (limitReader r) room fuel (limit, s) = some (data, err, t) ∧ Taken stream s limit data t ∧
      (err = none ∧ data.length = limit ∨ err = (stream.ending s).message ∧ stream.rest t.2 = []) := by
  have hrule := drain_rule (r := limitReader r) (fun got => room (received got).length + 1)
    (fun got t => Taken stream s limit (received got) t)
    (fun got e t => Taken stream s limit (received got) t ∧
      (e = .eof ∧ (received got).length = limit ∨ e = stream.ending s ∧ stream.rest t.2 = []))
    (fun t => stream.measure t.2)
    (fun got t e h herr => by
      have hnext := stream.taken_read h (room (received got).length + 1)
      rw [← received_concat] at hnext
      refine ⟨hnext, ?_⟩
      rw [limitReader] at herr hnext ⊢
      split_ifs at herr hnext ⊢ with hzero
      · have hlength := hnext.length_eq
        rw [hzero] at hlength
        exact .inl ⟨(Option.some.inj herr).symm, hlength⟩
      · obtain ⟨he, hrest⟩ := (stream.lawful _ _).err_eq e herr
        exact .inr ⟨he.trans h.ending_eq, hrest⟩)
    (fun got t h herr => by
      have hnext := stream.taken_read h (room (received got).length + 1)
      rw [← received_concat] at hnext
      refine ⟨hnext, ?_⟩
      rw [limitReader] at herr ⊢
      split_ifs at herr ⊢ with hzero
      exact stream.measure_read (by omega) herr)
    [] (limit, s) (stream.taken_start s limit)
  obtain ⟨enough, henough⟩ := hrule
  refine ⟨enough, fun fuel hfuel => ?_⟩
  obtain ⟨got, e, t, hdrain, htaken, hend⟩ := henough fuel hfuel
  refine ⟨received got, e.message, t, by rw [readAll, hdrain]; rfl, htaken, ?_⟩
  rcases hend with ⟨rfl, hlength⟩ | ⟨rfl, hrest⟩
  · exact .inl ⟨rfl, hlength⟩
  · exact .inr ⟨rfl, hrest⟩

/-- What was taken and put back in front of the rest is the stream as it was. -/
theorem gets_restored {s : σ} {limit : ℕ} {data : List β} {t : ℕ × σ} (h : Taken stream s limit data t) :
    Gets (multiReader listReader r) ⟨.first, data, t.2⟩ (stream.rest s) (stream.ending s) := by
  have hgets := (Multi.stream listStream stream fun _ => rfl).gets ⟨.first, data, t.2⟩
  have hrest : Multi.rest listStream stream ⟨.first, data, t.2⟩ = stream.rest s := h.rest_eq
  have hending : Multi.ending stream ⟨.first, data, t.2⟩ = stream.ending s := h.ending_eq
  rw [← hrest, ← hending]
  exact hgets

end Stream

end Foundations.Streams
