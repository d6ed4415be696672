import GarageConsole.Foundations.GoJson

/-! # Objects that differ where nobody looks

Two objects are alike up to a choice of names when they have the same names in the same order, and the same values
under the chosen ones. A decoder whose fields are all chosen cannot tell them apart, in whatever letter case the
members are named and however often.
-/

namespace Foundations.GoJson

open Text Json

set_option autoImplicit false

variable {α σ : Type}

/-- The same names in the same order, and the same values under the visible ones. -/
def Alike (visible : String → Bool) : List (String × Json) → List (String × Json) → Prop :=
  List.Forall₂ fun m m' => m.1 = m'.1 ∧ (visible m.1 = true → m.2 = m'.2)

/-- The names that go to one of these fields. -/
def named (fields : List String) (name : String) : Bool := fields.any fun field => foldName field = foldName name

theorem fieldOf_of_not_named {fields : List (Field σ)} {name : String} (h : named (fields.map Prod.fst) name = false) :
    fieldOf fields name = none := by
  apply fieldOf_eq_none
  rw [List.all_eq_true]
  intro f hf
  rw [named, List.any_eq_false] at h
  have hne := h f.1 (List.mem_map_of_mem hf)
  simpa using hne

namespace Alike

variable {visible : String → Bool} {ms ms' : List (String × Json)}

theorem lookup (h : Alike visible ms ms') {key : String} (hkey : visible key = true) :
    ms.lookup key = ms'.lookup key := by
  induction h with
  | nil => rfl
  | @cons m m' ms ms' hm _ ih =>
    obtain ⟨name, v⟩ := m
    obtain ⟨name', v'⟩ := m'
    obtain ⟨rfl, hv⟩ := hm
    rw [List.lookup_cons, List.lookup_cons, ih]
    by_cases heq : key = name
    · subst heq
      obtain rfl : v = v' := hv hkey
      rfl
    · rw [beq_eq_false_iff_ne.mpr heq]

theorem struct {fields : List (Field σ)} (h : Alike visible ms ms')
    (hfields : ∀ name, visible name = false → fieldOf fields name = none) (old : σ) :
    GoJson.struct fields old (.obj ms) = GoJson.struct fields old (.obj ms') := by
  rw [struct_obj, struct_obj]
  induction h generalizing old with
  | nil => rfl
  | @cons m m' ms ms' hm _ ih =>
    have hstore : storeMember fields old m = storeMember fields old m' := by
      rw [storeMember, storeMember, hm.1]
      cases hvis : visible m'.1 with
      | true => rw [hm.2 (hm.1 ▸ hvis)]
      | false => rw [hfields _ hvis]
    rw [List.foldlM_cons, List.foldlM_cons, hstore]
    exact congrArg _ (funext ih)

end Alike

end Foundations.GoJson
