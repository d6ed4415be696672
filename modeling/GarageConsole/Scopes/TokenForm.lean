import GarageConsole.Scopes.Editor

/-! # The form that edits an admin token

The form saves what differs from the token. A change of the scope that newly amounts to `*` is confirmed
first. Whether the scope differs is decided by `sameScope`, which compares the lengths and looks for the names
of one list in the other: right for two lists unless one's names are some, but not all, of the other's
(`dirtyTrackingExact_iff`).
-/

namespace GarageConsole.Scopes

open Foundations Foundations.Utf16

set_option autoImplicit false

/-- A local date and time, or no expiration. -/
structure ExpirationValue where
  neverExpires : Bool
  date : Units
  time : Units

def sameExpiration (a b : ExpirationValue) : Bool :=
  if a.neverExpires || b.neverExpires then a.neverExpires == b.neverExpires
  else a.date == b.date && a.time == b.time

inductive ExpirationBody where
  | expiration (iso : Units)
  | neverExpires

structure AdminTokenBody where
  name : Option Units
  expiration : Option ExpirationBody
  scope : Option (List Units)

structure AdminToken where
  name : Units
  scope : List Units

structure EditAdminTokenForm where
  token : AdminToken
  initialExpiration : ExpirationValue
  name : Units
  expiration : ExpirationValue
  scope : List Units
  isPending : Bool

/-- What a submit of the form does. -/
inductive Submitted where
  | nothing
  | confirmEscalation (message : Units)
  | mutate (body : AdminTokenBody)

namespace EditAdminTokenForm

def nameDirty (f : EditAdminTokenForm) : Bool := trim f.name != trim f.token.name

def expirationDirty (f : EditAdminTokenForm) : Bool := !sameExpiration f.expiration f.initialExpiration

def scopeDirty (f : EditAdminTokenForm) : Bool := !sameScope f.scope f.token.scope

def dirty (f : EditAdminTokenForm) : Bool := f.nameDirty || f.expirationDirty || f.scopeDirty

def escalation (f : EditAdminTokenForm) : Option Units :=
  if f.scopeDirty && !(scopeEscalates f.token.scope).escalates then escalationMessage f.scope else none

section Saving

-- the instant that a text means in the browser's time zone, written in UTC; none for an invalid date
variable (newDate : Units → Option Units)

def expirationIso (v : ExpirationValue) : Option Units :=
  if v.neverExpires || v.date == [] then none
  else newDate (v.date ++ utf16 "T" ++ if v.time = [] then utf16 "00:00" else v.time)

def expirationValid (v : ExpirationValue) : Bool := v.neverExpires || (expirationIso newDate v).isSome

def expirationBody (v : ExpirationValue) : ExpirationBody :=
  match expirationIso newDate v with
  | some iso => .expiration iso
  | none => .neverExpires

def body (f : EditAdminTokenForm) : AdminTokenBody where
  name := if f.nameDirty then some (trim f.name) else none
  expiration := if f.expirationDirty then some (expirationBody newDate f.expiration) else none
  scope := if f.scopeDirty then some f.scope else none

def canSave (f : EditAdminTokenForm) : Bool :=
  f.dirty && trim f.name != [] && expirationValid newDate f.expiration && 0 < f.scope.length && !f.isPending

def onSubmit (f : EditAdminTokenForm) : Submitted :=
  if !f.canSave newDate then .nothing
  else
    match f.escalation with
    | some message => if message = [] then .mutate (f.body newDate) else .confirmEscalation message
    | none => .mutate (f.body newDate)

end Saving

end EditAdminTokenForm

/-! ## Comparing scopes -/

theorem sameScope_iff {a b : List Units} : sameScope a b = true ↔ a.length = b.length ∧ b ⊆ a := by
  unfold sameScope
  split
  · rename_i h
    exact ⟨fun hf => absurd hf Bool.false_ne_true, fun hab => absurd hab.1 h⟩
  · rename_i h
    rw [not_not] at h
    simp only [List.all_eq_true, OrderedSet.has_iff, OrderedSet.mem_ofList]
    exact ⟨fun hall => ⟨h, hall⟩, fun hab => hab.2⟩

/-- Garage lets a token call the endpoints of its scope, all of them with `*`, and the exempt ones in any case. -/
def Grants (scope : List Units) (e : Units) : Prop := allScope ∈ scope ∨ e ∈ scope ∨ e ∈ scopeExemptEndpoints

/-- One list's names are not a proper part of the other's, where the lists are of one length. -/
def NoProperPart (a b : List Units) : Prop := a.length = b.length → (a ⊆ b ↔ b ⊆ a)

theorem grants_congr {a b : List Units} (hab : a ⊆ b) (hba : b ⊆ a) (e : Units) : Grants a e ↔ Grants b e :=
  or_congr ⟨fun h => hab h, fun h => hba h⟩ (or_congr_left ⟨fun h => hab h, fun h => hba h⟩)

theorem escalates_congr {a b : List Units} (hab : a ⊆ b) (hba : b ⊆ a) :
    (scopeEscalates a).escalates = (scopeEscalates b).escalates := by
  have hmem (e : Units) : e ∈ a ↔ e ∈ b := ⟨fun h => hab h, fun h => hba h⟩
  rw [Bool.eq_iff_iff, escalates_iff, escalates_iff]
  simp only [hmem]

theorem escalationMessage_ne_nil {l : List Units} {message : Units} (h : escalationMessage l = some message) :
    message ≠ [] := by
  obtain ⟨reason, -, rfl⟩ := Option.map_eq_some_iff.mp h
  intro hnil
  have := (List.append_eq_nil_iff.mp (List.append_eq_nil_iff.mp hnil).1).1
  exact absurd this (by decide)

/-- What is asked of the comparison of an edited scope with the token's own, and of the form that uses it. -/
structure DirtyTrackingExact (a b : List Units) : Prop where
  symmetric : sameScope a b = sameScope b a
  sound : sameScope a b = true → ∀ e, Grants a e ↔ Grants b e
  dirty : ∀ f : EditAdminTokenForm, f.scope = a → f.token.scope = b → (¬∀ e, Grants a e ↔ Grants b e) →
    f.dirty = true
  confirmed : ∀ f : EditAdminTokenForm, f.scope = a → f.token.scope = b → (scopeEscalates a).escalates = true →
    (scopeEscalates b).escalates = false → f.dirty = true ∧ ∀ newDate,
      f.canSave newDate = true → ∃ message, f.onSubmit newDate = .confirmEscalation message

theorem scopeDirty_eq {f : EditAdminTokenForm} (h : sameScope f.scope f.token.scope = false) : f.dirty = true := by
  rw [EditAdminTokenForm.dirty, EditAdminTokenForm.scopeDirty, h]
  exact Bool.or_true _

theorem onSubmit_escalating {f : EditAdminTokenForm} {newDate : Units → Option Units}
    (hdirty : sameScope f.scope f.token.scope = false) (hnew : (scopeEscalates f.scope).escalates = true)
    (hold : (scopeEscalates f.token.scope).escalates = false) (hsave : f.canSave newDate = true) :
    ∃ message, f.onSubmit newDate = .confirmEscalation message := by
  rw [← escalationMessage_isSome] at hnew
  obtain ⟨message, hmessage⟩ := Option.isSome_iff_exists.mp hnew
  have hescalation : f.escalation = some message := by
    rw [EditAdminTokenForm.escalation, EditAdminTokenForm.scopeDirty, hdirty, hold]
    exact hmessage
  refine ⟨message, ?_⟩
  rw [EditAdminTokenForm.onSubmit, hsave, hescalation]
  exact if_neg (escalationMessage_ne_nil hmessage)

theorem exact_of_symmetric {a b : List Units} (hsymm : sameScope a b = sameScope b a) : DirtyTrackingExact a b := by
  have hboth (h : sameScope a b = true) : a ⊆ b ∧ b ⊆ a :=
    ⟨(sameScope_iff.mp (hsymm ▸ h)).2, (sameScope_iff.mp h).2⟩
  have hgrants (h : sameScope a b = true) (e : Units) : Grants a e ↔ Grants b e :=
    grants_congr (hboth h).1 (hboth h).2 e
  refine ⟨hsymm, hgrants, ?_, ?_⟩
  · intro f ha hb hne
    refine scopeDirty_eq ?_
    rw [ha, hb, ← Bool.not_eq_true]
    exact fun h => hne (hgrants h)
  · intro f ha hb hnew hold
    have hdirty : sameScope f.scope f.token.scope = false := by
      rw [ha, hb, ← Bool.not_eq_true]
      intro h
      rw [escalates_congr (hboth h).1 (hboth h).2, hold] at hnew
      exact Bool.false_ne_true hnew
    rw [← ha] at hnew
    rw [← hb] at hold
    exact ⟨scopeDirty_eq hdirty, fun newDate hsave => onSubmit_escalating hdirty hnew hold hsave⟩

/-- **The comparison is right exactly for scopes of which none is a proper part of the other at one length.** -/
theorem dirtyTrackingExact_iff (a b : List Units) : DirtyTrackingExact a b ↔ NoProperPart a b := by
  have hsymm : sameScope a b = sameScope b a ↔ NoProperPart a b := by
    rw [Bool.eq_iff_iff, sameScope_iff, sameScope_iff, NoProperPart]
    constructor
    · intro h hlen
      exact ⟨fun hab => (h.mpr ⟨hlen.symm, hab⟩).2, fun hba => (h.mp ⟨hlen, hba⟩).2⟩
    · intro h
      exact ⟨fun hab => ⟨hab.1.symm, (h hab.1).mpr hab.2⟩, fun hba => ⟨hba.1.symm, (h hba.1.symm).mp hba.2⟩⟩
  exact ⟨fun h => hsymm.mp h.symmetric, fun h => exact_of_symmetric (hsymm.mpr h)⟩

/-- A token with one endpoint twice: turning on the endpoint that mints tokens is no change to the form. -/
theorem escalation_not_noticed : ¬DirtyTrackingExact
    (toggle [utf16 "ListBuckets", utf16 "ListBuckets"]
      (.ofEndpoint (utf16 "CreateAdminToken") (by decide +kernel) true))
    [utf16 "ListBuckets", utf16 "ListBuckets"] := by
  intro h
  let never : ExpirationValue := ⟨true, [], []⟩
  let token : AdminToken := ⟨utf16 "ops", [utf16 "ListBuckets", utf16 "ListBuckets"]⟩
  have hdirty := (h.confirmed ⟨token, never, token.name, never, _, false⟩ rfl rfl (by decide +kernel)
    (by decide +kernel)).1
  exact absurd hdirty (by decide +kernel)

end GarageConsole.Scopes
