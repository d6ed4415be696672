import GarageConsole.Foundations.GoJson

/-! # Reading fewer fields

Two readers of one document, one of which knows only some of the other's fields: what the first makes of it is
the part of what the second makes of it that it knows (`Projects.unmarshal`). Where no two fields have names that
fold alike, a member goes to the field whose name folds like its own.
-/

namespace Foundations.GoJson

open Text

set_option autoImplicit false

variable {σ τ : Type}

/-- `fewer` are some of the fields, in their order, which read the view of a value; the others leave the view alone. -/
inductive Projects (view : σ → τ) : List (Field σ) → List (Field τ) → Prop
  | nil : Projects view [] []
  | keep {name : String} {dec : Decoder σ} {dec' : Decoder τ} {fields : List (Field σ)} {fewer : List (Field τ)} :
    (∀ s s' v, dec s v = some s' → dec' (view s) v = some (view s')) → Projects view fields fewer →
      Projects view ((name, dec) :: fields) ((name, dec') :: fewer)
  | drop {name : String} {dec : Decoder σ} {fields : List (Field σ)} {fewer : List (Field τ)} :
    (∀ s s' v, dec s v = some s' → view s' = view s) → Projects view fields fewer →
      Projects view ((name, dec) :: fields) fewer

theorem fieldOf_eq_find {fields : List (Field σ)} (hnodup : (fields.map fun f => foldName f.1).Nodup) (name : String) :
    fieldOf fields name = (fields.find? fun f => foldName f.1 = foldName name).map Prod.snd := by
  rw [fieldOf]
  cases hexact : fields.find? fun f => f.1 = name with
  | none => rw [Option.none_or]
  | some f =>
    have hf : f.1 = name := by simpa using List.find?_some hexact
    have hmem := List.mem_of_find?_eq_some hexact
    have hloose : fields.find? (fun f => foldName f.1 = foldName name) = some f := by
      cases hg : fields.find? fun f => foldName f.1 = foldName name with
      | none =>
        have := List.find?_eq_none.mp hg f hmem
        simp [hf] at this
      | some g =>
        have hfold : foldName g.1 = foldName f.1 := by
          rw [hf]
          simpa using List.find?_some hg
        rw [List.inj_on_of_nodup_map hnodup (List.mem_of_find?_eq_some hg) hmem hfold]
    rw [hloose]
    rfl

theorem storeMember_cons {f : Field σ} {fields : List (Field σ)}
    (hnodup : ((f :: fields).map fun g => foldName g.1).Nodup) (s : σ) (m : String × Json) :
    storeMember (f :: fields) s m =
      if foldName f.1 = foldName m.1 then f.2 s m.2 else storeMember fields s m := by
  rw [storeMember, storeMember, fieldOf_eq_find hnodup, fieldOf_eq_find (List.nodup_cons.mp hnodup).2, List.find?_cons]
  by_cases hname : foldName f.1 = foldName m.1
  · simp [hname]
  · simp [hname]

theorem storeMember_of_notMem {fields : List (Field σ)} {m : String × Json}
    (h : foldName m.1 ∉ fields.map fun f => foldName f.1) (s : σ) : storeMember fields s m = some s := by
  have hnone (f : Field σ) (hf : f ∈ fields) : foldName f.1 ≠ foldName m.1 := fun heq =>
    h (List.mem_map.mpr ⟨f, hf, heq⟩)
  have hfield : fieldOf fields m.1 = none := by
    rw [fieldOf, Option.map_eq_none_iff, Option.or_eq_none_iff, List.find?_eq_none, List.find?_eq_none]
    refine ⟨fun f hf heq => hnone f hf ?_, fun f hf heq => hnone f hf ?_⟩
    · rw [of_decide_eq_true heq]
    · exact of_decide_eq_true heq
  rw [storeMember, hfield]

variable {view : σ → τ} {fields : List (Field σ)} {fewer : List (Field τ)}

theorem Projects.names_sublist (h : Projects view fields fewer) :
    (fewer.map fun f => foldName f.1).Sublist (fields.map fun f => foldName f.1) := by
  induction h with
  | nil => exact List.Sublist.refl []
  | keep _ _ ih => exact ih.cons_cons _
  | drop _ _ ih => exact ih.cons _

theorem Projects.storeMember (h : Projects view fields fewer) (hnodup : (fields.map fun f => foldName f.1).Nodup)
    {s s' : σ} {m : String × Json} (hstore : GoJson.storeMember fields s m = some s') :
    GoJson.storeMember fewer (view s) m = some (view s') := by
  induction h with
  | nil =>
    obtain rfl := Option.some.inj hstore
    rfl
  | keep hdec hrest ih =>
    rw [storeMember_cons hnodup] at hstore
    rw [storeMember_cons (hnodup.sublist (hrest.keep hdec).names_sublist)]
    split_ifs at hstore ⊢
    · exact hdec _ _ _ hstore
    · exact ih (List.nodup_cons.mp hnodup).2 hstore
  | drop hdec hrest ih =>
    obtain ⟨hnew, hnodup'⟩ := List.nodup_cons.mp hnodup
    rw [storeMember_cons hnodup] at hstore
    split_ifs at hstore with hname
    · rw [storeMember_of_notMem (hname ▸ fun hmem => hnew (hrest.names_sublist.subset hmem)), hdec _ _ _ hstore]
    · exact ih hnodup' hstore

theorem Projects.struct (h : Projects view fields fewer) (hnodup : (fields.map fun f => foldName f.1).Nodup)
    {old new : σ} {v : Json} (hstruct : GoJson.struct fields old v = some new) :
    GoJson.struct fewer (view old) v = some (view new) := by
  cases v with
  | null =>
    obtain rfl := Option.some.inj hstruct
    rfl
  | obj members =>
    rw [struct_obj] at hstruct ⊢
    induction members generalizing old with
    | nil =>
      obtain rfl := Option.some.inj hstruct
      rfl
    | cons m members ih =>
      rw [List.foldlM_cons] at hstruct ⊢
      obtain ⟨s, hs, hrest⟩ := Option.bind_eq_some_iff.mp hstruct
      rw [h.storeMember hnodup hs]
      exact ih hrest
  | _ => cases hstruct

/-- The reader that knows fewer fields takes the same document, and sees the view of what the other sees. -/
theorem Projects.unmarshal (h : Projects view fields fewer) (hnodup : (fields.map fun f => foldName f.1).Nodup)
    {zero new : σ} {data : Bytes} (hdecoded : GoJson.unmarshal (GoJson.struct fields) zero data = some new) :
    GoJson.unmarshal (GoJson.struct fewer) (view zero) data = some (view new) := by
  obtain ⟨v, hv, hdecode⟩ := Option.bind_eq_some_iff.mp hdecoded
  rw [GoJson.unmarshal, hv]
  dsimp only [Option.bind_eq_bind, Option.bind_some] at hdecode ⊢
  split_ifs at hdecode ⊢ with hdepth
  exact h.struct hnodup hdecode

end Foundations.GoJson
