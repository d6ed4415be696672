import GarageConsole.Foundations.Router

/-! # Paths of which some segments are known

A client puts paths together from words and from names that it does not know in advance. Whether a route takes such a
path can be told from the words alone (`admits_filled`), if no word of the route but those that are no names stands
where the path has a name (`settled`). A table of routes is then searched once for all names (`find?_filled`).
-/

namespace Foundations.Router

open Text

set_option autoImplicit false

/-- The segments of a path: known words, and `none` for a name. -/
abbrev Known := List (Option Bytes)

/-- The words are where they are known to be, and no name is among `reserved`. -/
inductive Filled (reserved : List Bytes) : Known → List Bytes → Prop where
  | nil : Filled reserved [] []
  | word {w : Bytes} {ps : Known} {ss : List Bytes} : Filled reserved ps ss → Filled reserved (some w :: ps) (w :: ss)
  | name {s : Bytes} {ps : Known} {ss : List Bytes} : s ∉ reserved → Filled reserved ps ss →
      Filled reserved (none :: ps) (s :: ss)

/-- Whether a route takes the path, as far as its words tell. -/
def fits : Shape → Known → Bool
  | [], [] => true
  | some w :: qs, some s :: ps => s = w && fits qs ps
  | some _ :: _, none :: _ => false
  | none :: qs, _ :: ps => fits qs ps
  | _, _ => false

/-- The words do tell: a name meets no word of the route but a reserved one, and no placeholder an empty word. -/
def settled (reserved : List Bytes) : Shape → Known → Bool
  | some w :: _, none :: _ => reserved.contains w
  | some w :: qs, some s :: ps => s ≠ w || settled reserved qs ps
  | none :: qs, some s :: ps => s ≠ [] && settled reserved qs ps
  | none :: qs, none :: ps => settled reserved qs ps
  | _, _ => true

theorem admits_filled {reserved : List Bytes} (hempty : [] ∈ reserved) {takesEmpty : Bool} {ps : Known}
    {ss : List Bytes} (h : Filled reserved ps ss) : ∀ {q : Shape}, settled reserved q ps = true →
      admits takesEmpty q ss = fits q ps := by
  induction h with
  | nil =>
    intro q _
    cases q with
    | nil => rfl
    | cons p q => cases p <;> rfl
  | @word w ps ss _ ih =>
    intro q hq
    cases q with
    | nil => rfl
    | cons p q =>
      cases p with
      | some v =>
        by_cases hw : w = v
        · rw [settled, decide_eq_false (not_not.mpr hw), Bool.false_or] at hq
          rw [admits, fits, ih hq]
        · rw [admits, fits, decide_eq_false hw]
          rfl
      | none =>
        rw [settled, Bool.and_eq_true, decide_eq_true_eq] at hq
        rw [admits, fits, ih hq.2, decide_eq_true hq.1]
        rfl
  | @name s ps ss hs _ ih =>
    intro q hq
    cases q with
    | nil => rfl
    | cons p q =>
      cases p with
      | some v =>
        rw [settled, List.contains_iff_mem] at hq
        have hne : s ≠ v := fun heq => hs (heq ▸ hq)
        rw [admits, fits, decide_eq_false hne]
        rfl
      | none =>
        have hne : s ≠ [] := fun heq => hs (heq ▸ hempty)
        rw [admits, fits, ih hq, decide_eq_true hne]
        rfl

/-- The first of the routes that takes the path, found by its words. -/
theorem find?_filled {α : Type} {reserved : List Bytes} (hempty : [] ∈ reserved) {takesEmpty : Bool} {ps : Known}
    {ss : List Bytes} (h : Filled reserved ps ss) (shape : α → Shape) (among : α → Bool) : ∀ {routes : List α},
      (routes.all fun r => !among r || settled reserved (shape r) ps) = true →
        routes.find? (fun r => among r && admits takesEmpty (shape r) ss) =
          routes.find? fun r => among r && fits (shape r) ps
  | [], _ => rfl
  | r :: routes, hsettled => by
    rw [List.all_cons, Bool.and_eq_true] at hsettled
    rw [List.find?_cons, List.find?_cons, find?_filled hempty h shape among hsettled.2]
    cases hamong : among r with
    | false => rfl
    | true =>
      rw [hamong] at hsettled
      rw [admits_filled hempty h hsettled.1]

end Foundations.Router
