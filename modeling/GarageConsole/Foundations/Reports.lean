import Mathlib.Data.List.Basic
import Mathlib.Tactic.Common

/-! # Reports on sources that may fail

A report is what a row of checks found: the findings, the names of what could not be judged, and whether
something is still on its way. Checks are put one after another (`++`), and a report is all clear exactly when
each of its parts is (`allClear_append`, `allClear_forEach`). A source that failed counts as not judged even
when it still holds data (`take`), so behind an all-clear report every source was read (`fresh_of_take`).
-/

namespace Foundations.Reports

set_option autoImplicit false

/-- What was fetched, and whether the last fetch failed. -/
structure Source (α : Type) where
  data : Option α
  isError : Bool

def Source.map {α β : Type} (f : α → β) (src : Source α) : Source β := ⟨src.data.map f, src.isError⟩

def Source.Fresh {α : Type} (src : Source α) (a : α) : Prop := src.isError = false ∧ src.data = some a

theorem Source.Fresh.of_map {α β : Type} {f : α → β} {src : Source α} {b : β} (h : (src.map f).Fresh b) :
    ∃ a, src.Fresh a ∧ f a = b := by
  obtain ⟨a, ha, hf⟩ := Option.map_eq_some_iff.mp h.2
  exact ⟨a, ⟨h.1, ha⟩, hf⟩

structure Report (ι υ : Type) where
  items : List ι := []
  unknown : List υ := []
  pending : Bool := false
  deriving DecidableEq

namespace Report

variable {ι υ α : Type}

instance : Append (Report ι υ) := ⟨fun r s => ⟨r.items ++ s.items, r.unknown ++ s.unknown, r.pending || s.pending⟩⟩

def item (i : ι) : Report ι υ := { items := [i] }

def notJudged (label : υ) : Report ι υ := { unknown := [label] }

def onlyIf (c : Prop) [Decidable c] (r : Report ι υ) : Report ι υ := if c then r else {}

def forEach (xs : List α) (check : α → Report ι υ) : Report ι υ := xs.foldr (fun a r => check a ++ r) {}

/-- The check of what there is. -/
def ofOption (x : Option α) (check : α → Report ι υ) : Report ι υ := x.elim {} check

/-- The data of a source, with what its state adds to the report. -/
def take (src : Source α) (label : υ) : Report ι υ × Option α :=
  if src.isError then (notJudged label, none) else ({ pending := src.data.isNone }, src.data)

/-! ## All clear -/

def AllClear (r : Report ι υ) : Prop := r.items = [] ∧ r.unknown = [] ∧ r.pending = false

instance [DecidableEq ι] [DecidableEq υ] (r : Report ι υ) : Decidable r.AllClear :=
  inferInstanceAs (Decidable (_ ∧ _ ∧ _))

theorem allClear_append {r s : Report ι υ} : (r ++ s).AllClear ↔ r.AllClear ∧ s.AllClear := by
  change (r.items ++ s.items = [] ∧ r.unknown ++ s.unknown = [] ∧ (r.pending || s.pending) = false) ↔ _
  rw [List.append_eq_nil_iff, List.append_eq_nil_iff, Bool.or_eq_false_iff]
  constructor
  · rintro ⟨⟨hri, hsi⟩, ⟨hru, hsu⟩, hrp, hsp⟩
    exact ⟨⟨hri, hru, hrp⟩, hsi, hsu, hsp⟩
  · rintro ⟨⟨hri, hru, hrp⟩, hsi, hsu, hsp⟩
    exact ⟨⟨hri, hsi⟩, ⟨hru, hsu⟩, hrp, hsp⟩

theorem not_allClear_item (i : ι) : ¬(item i : Report ι υ).AllClear := by
  intro h
  cases h.1

theorem not_allClear_notJudged (label : υ) : ¬(notJudged label : Report ι υ).AllClear := by
  intro h
  cases h.2.1

theorem not_of_onlyIf {c : Prop} [Decidable c] {r : Report ι υ} (h : (onlyIf c r).AllClear)
    (hr : ¬r.AllClear) : ¬c := by
  intro hc
  rw [onlyIf, if_pos hc] at h
  exact hr h

theorem allClear_forEach {xs : List α} {check : α → Report ι υ} (h : (forEach xs check).AllClear) :
    ∀ a ∈ xs, (check a).AllClear := by
  induction xs with
  | nil => exact fun a ha => absurd ha List.not_mem_nil
  | cons x xs ih =>
    obtain ⟨hx, hxs⟩ := allClear_append.mp h
    rw [List.forall_mem_cons]
    exact ⟨hx, ih hxs⟩

theorem fresh_of_take {src : Source α} {label : υ} (h : (take (ι := ι) src label).1.AllClear) :
    ∃ a, src.Fresh a ∧ (take (ι := ι) src label).2 = some a := by
  unfold take at h ⊢
  cases herror : src.isError with
  | true =>
    rw [herror] at h
    exact absurd h (not_allClear_notJudged label)
  | false =>
    rw [herror] at h
    have hpending : src.data.isNone = false := h.2.2
    obtain ⟨a, ha⟩ := Option.isSome_iff_exists.mp (Option.isNone_eq_false_iff.mp hpending)
    exact ⟨a, ⟨herror, ha⟩, ha⟩

end Report

end Foundations.Reports
