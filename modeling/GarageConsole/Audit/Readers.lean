import GarageConsole.Audit.Detail
import GarageConsole.Maintenance.CleanupUploads
import GarageConsole.Objects.BatchDelete

/-! # What the audit log's readers make of a body that parses

The token walk behind `extractObjectKeys` and `stringArraySummary` against the syntax tree of the same text:
on a body that parses it summarises the value of the first member named `keys`. And `Unmarshal` against the
decoder that ignores what follows the first value.
-/

namespace GarageConsole.Audit

open Foundations Foundations.Text Foundations.GoJson Foundations.JsonTokens Foundations.Json Foundations.Calls
  GarageConsole.Garage GarageConsole.Permissions GarageConsole.Objects GarageConsole.Maintenance

set_option autoImplicit false

/-! ## Summaries of lists that parse -/

def asString : Json → Option String
  | .str s => some s
  | _ => none

/-- The strings of an array that holds nothing else. -/
def allStrings : List Json → Option (List String)
  | [] => some []
  | v :: vs => (asString v).bind fun s => (allStrings vs).map (s :: ·)

theorem allStrings_eq_some {vs : List Json} {strs : List String} : allStrings vs = some strs ↔ vs = strs.map .str := by
  induction vs generalizing strs with
  | nil => cases strs <;> simp [allStrings]
  | cons v vs ih =>
    rw [allStrings, Option.bind_eq_some_iff]
    constructor
    · rintro ⟨s, hs, h⟩
      obtain ⟨rest, hrest, rfl⟩ := Option.map_eq_some_iff.mp h
      rw [ih.mp hrest]
      cases v with
      | str t =>
        cases hs
        rfl
      | _ => cases hs
    · intro h
      cases strs with
      | nil => cases h
      | cons s strs =>
        obtain ⟨rfl, hvs⟩ := List.cons.inj h
        exact ⟨s, rfl, by rw [ih.mpr hvs]; rfl⟩

/-- The summary of a whole list. -/
def summaryOf (itemsField countField : String) (strs : List String) : Detail :=
  [(countField, countOf strs.length),
   (itemsField, strings ((strs.take auditPreviewItems).map fun s => truncateUTF8 s auditMaxValueBytes))]

theorem foldl_addItem (strs items : List String) : strs.foldl addItem items =
    items ++ (strs.take (auditPreviewItems - items.length)).map fun s => truncateUTF8 s auditMaxValueBytes := by
  induction strs generalizing items with
  | nil => simp
  | cons s strs ih =>
    rw [List.foldl_cons, ih, addItem]
    split_ifs with hfew
    · obtain ⟨room, hroom⟩ : ∃ room, auditPreviewItems - items.length = room + 1 := ⟨_, (Nat.succ_pred_eq_of_pos
        (Nat.sub_pos_of_lt hfew)).symm⟩
      have hrest : auditPreviewItems - (items ++ [truncateUTF8 s auditMaxValueBytes]).length = room := by
        rw [List.length_append, List.length_singleton]
        omega
      rw [hrest, hroom, List.take_succ_cons, List.map_cons, List.append_assoc]
      rfl
    · rw [Nat.sub_eq_zero_of_le (Nat.le_of_not_lt hfew), List.take_zero, List.take_zero]

section Summary

variable {itemsField countField : String}

/-- What the loop makes of the items that are left, after `n` of them. -/
def closed (itemsField countField : String) (n : ℕ) (items : List String) (vs : List Json) : Detail :=
  (allStrings vs).elim [] fun strs =>
    [(countField, countOf (n + strs.length)), (itemsField, strings (strs.foldl addItem items))]

theorem closed_cons (n : ℕ) (items : List String) (s : String) (vs : List Json) :
    closed itemsField countField n items (.str s :: vs) =
      closed itemsField countField (n + 1) (addItem items s) vs := by
  unfold closed
  rw [allStrings, asString, Option.bind_some]
  cases allStrings vs with
  | none => rfl
  | some strs =>
    rw [Option.map_some, Option.elim_some, Option.elim_some, List.length_cons, List.foldl_cons,
      Nat.add_comm strs.length 1, Nat.add_assoc]

theorem closed_of_not_string {v : Json} (h : asString v = none) (n : ℕ) (items : List String) (vs : List Json) :
    closed itemsField countField n items (v :: vs) = [] := by
  rw [closed, allStrings, h]
  rfl

theorem summaryLoop_string {k n : ℕ} {text rest : Bytes} {items : List String} {s : String}
    (h : arrayToken (n = 0) text = .value (.str s) rest) : summaryLoop itemsField countField true (k + 1) text n items =
      summaryLoop itemsField countField true k rest (n + 1) (addItem items s) := by
  rw [summaryLoop, h]

theorem summaryLoop_other {k n : ℕ} {text rest : Bytes} {items : List String} {v : Json} (hv : asString v = none)
    (h : arrayToken (n = 0) text = tokenOf v rest) :
    summaryLoop itemsField countField true (k + 1) text n items = [] := by
  rw [summaryLoop, h, tokenOf]
  by_cases hnested : nested v = true
  · rw [if_pos hnested]
  · rw [if_neg hnested]
    by_cases hfits : fitsAny v = true
    · rw [if_pos hfits]
      cases v with
      | str s => cases hv
      | _ => rfl
    · rw [if_neg hfits]
      rfl

/-- The loop reads the items that the parser does. By induction on the parser's fuel. -/
theorem summaryLoop_of_parse {fuel : ℕ} : ∀ {bs rest text : Bytes} {vs : List Json} {n k : ℕ} {items : List String},
    parseItems fuel bs = some (vs, rest) → fuel ≤ k → arrayToken (n = 0) text = elementToken bs →
      summaryLoop itemsField countField true (k + 1) text n items = closed itemsField countField n items vs := by
  induction fuel with
  | zero =>
    intro bs rest text vs n k items hparse
    cases hparse
  | succ fuel ih =>
    intro bs rest text vs n k items hparse hk htoken
    obtain ⟨k, rfl⟩ : ∃ k', k = k' + 1 := ⟨k - 1, by omega⟩
    rw [parseItems] at hparse
    split at hparse
    · cases hparse
    · rename_i v r hvalue
      rw [elementToken_of_parse hvalue] at htoken
      cases hv : asString v with
      | none =>
        rw [summaryLoop_other hv htoken]
        split at hparse
        · cases hparse
          exact (closed_of_not_string hv n items []).symm
        · obtain ⟨out, -, heq⟩ := Option.map_eq_some_iff.mp hparse
          cases heq
          exact (closed_of_not_string hv n items out.1).symm
        · cases hparse
      | some s =>
        obtain rfl : v = .str s := by
          cases v with
          | str t =>
            cases hv
            rfl
          | _ => cases hv
        rw [summaryLoop_string htoken]
        split at hparse
        · rename_i hclose
          cases hparse
          rw [summaryLoop, arrayToken_close hclose, closed_cons]
          rfl
        · rename_i hcomma
          obtain ⟨out, hitems, heq⟩ := Option.map_eq_some_iff.mp hparse
          cases heq
          rw [closed_cons]
          exact ih hitems (by omega) (arrayToken_comma hcomma)
        · cases hparse

/-- The summary of a value: of an array of strings, and nothing of anything else. -/
def summaryOfValue (itemsField countField : String) : Json → Detail
  | .arr vs => (allStrings vs).elim [] (summaryOf itemsField countField)
  | _ => []

theorem closed_start (vs : List Json) :
    closed itemsField countField 0 [] vs = summaryOfValue itemsField countField (.arr vs) := by
  rw [closed, summaryOfValue]
  cases allStrings vs with
  | none => rfl
  | some strs =>
    rw [Option.elim_some, Option.elim_some, foldl_addItem, List.nil_append, Nat.zero_add, List.length_nil, Nat.sub_zero]
    rfl

theorem summaryOfValue_of_not_array {v : Json} (h : ∀ vs, v ≠ .arr vs) :
    summaryOfValue itemsField countField v = [] := by
  cases v with
  | arr vs => exact absurd rfl (h vs)
  | _ => rfl

theorem stringArraySummary_of_parse {fuel : ℕ} {bs rest : Bytes} {v : Json}
    (h : parseValue fuel (skipSpace bs) = some (v, rest)) :
    stringArraySummary itemsField countField true fuel bs = summaryOfValue itemsField countField v := by
  unfold stringArraySummary
  obtain ⟨inside, hopen, hinside⟩ | ⟨hopen, hv⟩ := array_of_parse h
  · rw [hopen]
    change summaryLoop itemsField countField true fuel inside 0 [] = _
    obtain ⟨hclose, rfl⟩ | ⟨fuel, vs, rfl, hfirst, hitems, rfl⟩ := hinside
    · cases fuel with
      | zero => cases h
      | succ fuel =>
        rw [summaryLoop, arrayToken_close hclose]
        rfl
    · rw [← closed_start]
      exact summaryLoop_of_parse hitems (Nat.le_refl _) (arrayToken_first hfirst)
  · rw [summaryOfValue_of_not_array hv]
    split
    · rename_i hhead
      rw [hhead] at hopen
      exact absurd rfl hopen
    · rfl

theorem depth_le_of_mem {members : List (String × Json)} {m : String × Json} (h : m ∈ members) :
    m.2.depth ≤ (Json.obj members).depth := by
  have hle : m.2.depth ≤ depthMembers members := by
    induction members with
    | nil => exact absurd h List.not_mem_nil
    | cons member members ih =>
      rw [depthMembers]
      rcases List.mem_cons.mp h with rfl | h
      · exact Nat.le_max_left _ _
      · exact (ih h).trans (Nat.le_max_right _ _)
  rw [Json.depth]
  omega

/-- What the token walk finds among members that parse: the summary of the first one named `keys`. -/
theorem keysOfMembers_of_parse {fuel : ℕ} : ∀ {bs rest : Bytes} {members : List (String × Json)},
    parseMembers fuel bs = some (members, rest) → (∀ m ∈ members, m.2.depth ≤ maxNestingDepth) →
      keysOfMembers true fuel bs = (members.lookup "keys").elim [] (summaryOfValue "keys" "keyCount") := by
  induction fuel with
  | zero =>
    intro bs rest members hparse
    cases hparse
  | succ fuel ih =>
    intro bs rest members hparse hdepth
    obtain ⟨inside, name, afterName, value, v, afterValue, rfl, hname, hcolon, hvalue, hrest⟩ := member_of_parse hparse
    rw [keysOfMembers, hname]
    simp only [hcolon]
    by_cases hkeys : name = "keys"
    · have hlookup : members.lookup "keys" = some v := by
        obtain ⟨-, rfl⟩ | ⟨_, _, -, -, rfl⟩ := hrest
        · rw [hkeys, List.lookup_cons_self]
        · rw [hkeys, List.lookup_cons_self]
      rw [if_pos hkeys, stringArraySummary_of_parse hvalue, hlookup, Option.elim_some]
    · have hother : ("keys" == name) = false := by
        rw [beq_eq_false_iff_ne]
        exact fun h => hkeys h.symm
      rw [if_neg hkeys, hvalue]
      obtain ⟨hclose, rfl⟩ | ⟨next, more, hcomma, hmore, rfl⟩ := hrest
      · rw [List.forall_mem_cons] at hdepth
        rw [List.lookup_cons, hother]
        simp only [hclose, if_neg (Nat.not_lt_of_le hdepth.1)]
        rfl
      · rw [List.forall_mem_cons] at hdepth
        rw [List.lookup_cons, hother]
        simp only [hcomma, if_neg (Nat.not_lt_of_le hdepth.1)]
        exact ih hmore hdepth.2

theorem extractObjectKeys_of_parse {body rest : Bytes} {members : List (String × Json)}
    (h : parsePrefix body = some (.obj members, rest)) (hdepth : (Json.obj members).depth ≤ maxNestingDepth) :
    extractObjectKeys body true = (members.lookup "keys").elim [] (summaryOfValue "keys" "keyCount") := by
  obtain ⟨inside, fuel, hopen, hfuel, hmembers⟩ := object_of_parse h
  obtain rfl : fuel = 2 * body.length := Nat.succ.inj hfuel.symm
  unfold extractObjectKeys
  rw [hopen]
  change keysOfMembers true (2 * body.length) (skipSpace inside) = _
  obtain ⟨hclose, rfl⟩ | hmembers := hmembers
  · rw [hclose]
    cases body.length with
    | zero => rfl
    | succ n => rfl
  · exact keysOfMembers_of_parse hmembers fun m hm => (depth_le_of_mem hm).trans hdepth

end Summary

/-! ## Bodies that are one value -/

/-- After the first value of the body there is nothing but blanks. -/
def FollowedByNothing (body : Bytes) : Prop := ∃ v rest, parsePrefix body = some (v, rest) ∧ skipSpace rest = []

theorem unmarshal_of_decodeFirst {α : Type} {dec : Decoder α} {zero a : α} {body : Bytes}
    (h : decodeFirst dec zero body = some a) :
    (FollowedByNothing body → unmarshal dec zero body = some a) ∧
      (¬FollowedByNothing body → unmarshal dec zero body = none) := by
  obtain ⟨⟨v, rest⟩, hparse, hfits⟩ := Option.bind_eq_some_iff.mp h
  have hvalue : unmarshal dec zero body = if (skipSpace rest).isEmpty then some a else none := by
    rw [unmarshal, parse, hparse]
    dsimp only
    split_ifs
    · exact hfits
    · rfl
  rw [hvalue]
  constructor
  · rintro ⟨v', rest', hparse', hnothing⟩
    rw [hparse, Option.some.injEq, Prod.mk.injEq] at hparse'
    rw [hparse'.2, hnothing]
    rfl
  · intro hsomething
    rw [if_neg]
    intro hnothing
    exact hsomething ⟨v, rest, hparse, List.isEmpty_iff.mp hnothing⟩

/-- What a strict decoder accepts a decoder that allows unknown fields reads the same. -/
theorem struct_of_strictStruct {σ : Type} {fields : List (GoJson.Field σ)} {old s : σ} {v : Json}
    (h : strictStruct fields old v = some s) : struct fields old v = some s := by
  cases v with
  | null => exact h
  | obj members =>
    rw [struct_obj]
    rw [strictStruct] at h
    induction members generalizing old with
    | nil => exact h
    | cons m members ih =>
      rw [List.foldlM_cons] at h ⊢
      obtain ⟨t, ht, hrest⟩ := Option.bind_eq_some_iff.mp h
      obtain ⟨dec, hdec, hstore⟩ := Option.bind_eq_some_iff.mp ht
      refine Option.bind_eq_some_iff.mpr ⟨t, ?_, ih hrest⟩
      rw [storeMember, hdec]
      exact hstore
  | _ => cases h

theorem decoded_agrees {α : Type} {dec : Decoder α} {zero a : α} {detail : α → Detail} {body : Bytes}
    (h : decodeFirst dec zero body = some a) (hne : detail a ≠ []) :
    decoded dec zero detail body true = detail a ↔ FollowedByNothing body := by
  obtain ⟨halone, hfollowed⟩ := unmarshal_of_decodeFirst h
  rw [decoded, if_pos rfl]
  by_cases hbody : FollowedByNothing body
  · rw [halone hbody]
    exact ⟨fun _ => hbody, fun _ => rfl⟩
  · rw [hfollowed hbody]
    exact ⟨fun heq => absurd heq.symm hne, fun h => absurd h hbody⟩

end GarageConsole.Audit
